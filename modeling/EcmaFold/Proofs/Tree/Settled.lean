import EcmaFold.Proofs.Lexer.Chunks
import EcmaFold.Proofs.Parser.Follow
import EcmaFold.Proofs.Parser.Reads

/-!
In the yield of a tree a slash stands before an operand and a point before a name, so that no token of a program
can be read otherwise because of what the source goes on with.
-/

namespace EcmaFold

namespace Token

theorem not_opensComment {t : Token} (starts : t.startsExpression = true) : t.opensComment = false := by
  cases t with
  | punct p => cases p <;> first | rfl | cases starts
  | _ => rfl

@[simp] theorem admits_word (w : Word) (next : Option Token) : (keyword w).admits next = true := rfl

@[simp] theorem admits_name (own : Bytes) (next : Option Token) : (name own).admits next = true := rfl

@[simp] theorem admits_ofName (own : Bytes) (next : Option Token) : (ofName own).admits next = true := by
  unfold ofName
  split <;> rfl

@[simp] theorem admits_assignOp (op : AssignOp) (next : Option Token) : op.token.admits next = true := by
  cases op <;> rfl

@[simp] theorem admits_unaryOp (op : UnaryOp) (next : Option Token) : op.token.admits next = true := by
  cases op <;> rfl

@[simp] theorem admits_updateOp (op : UpdateOp) (next : Option Token) : op.token.admits next = true := by
  cases op <;> rfl

theorem admits_binaryOp (op : BinaryOp) {next : Token} (starts : next.startsExpression = true) :
    op.token.admits (some next) = true := by
  cases op with
  | div => exact congrArg Bool.not (not_opensComment starts)
  | _ => rfl

theorem isWord_ofName (own : Bytes) : (ofName own).isWord = true := by
  unfold ofName
  split <;> rfl

/-- What needs no particular token behind it needs none when more follows. -/
theorem admits_of_none {t : Token} (free : t.admits none = true) (next : Option Token) : t.admits next = true := by
  cases t with
  | punct p => cases p <;> first | rfl | cases free
  | _ => rfl

end Token

namespace Slot

/-- The token that comes first, if a token comes first. -/
def next? : List Slot → Option Token
  | token t :: _ => some t
  | _ => none

/-- Each token is admitted by the token that follows it at once, and what has to stand on the line is a token. -/
def Settled : List Slot → Prop
  | [] => True
  | token t :: rest => t.admits (next? rest) = true ∧ Settled rest
  | sameLine :: rest => (next? rest).isSome = true ∧ Settled rest
  | elision :: rest => Settled rest

/-- All parts are settled, so that they are when they stand one behind the other. -/
def AllSettled (parts : List (List Slot)) : Prop := ∀ part ∈ parts, Settled part

@[simp] theorem settled_nil : Settled [] := trivial

theorem settled_token {t : Token} {slots : List Slot} (free : t.admits none = true) :
    Settled (token t :: slots) ↔ Settled slots := and_iff_right (Token.admits_of_none free _)

@[simp] theorem settled_word {w : Word} {slots : List Slot} : Settled (word w :: slots) ↔ Settled slots :=
  settled_token rfl

@[simp] theorem settled_name {own : Bytes} {slots : List Slot} : Settled (name own :: slots) ↔ Settled slots :=
  settled_token rfl

@[simp] theorem settled_punct {p : Punct} {slots : List Slot} (noSlash : p ≠ .div) (noPoint : p ≠ .dot) :
    Settled (punct p :: slots) ↔ Settled slots := by
  refine settled_token ?_
  cases p <;> first | rfl | exact absurd rfl noSlash | exact absurd rfl noPoint

@[simp] theorem settled_sameLine_name {own : Bytes} {slots : List Slot} :
    Settled (sameLine :: name own :: slots) ↔ Settled slots := (and_iff_right rfl).trans settled_name

@[simp] theorem settled_elision {slots : List Slot} : Settled (elision :: slots) ↔ Settled slots := Iff.rfl

/-- Behind settled slots, the others decide. -/
@[simp] theorem settled_append {slots slots' : List Slot} (first : Settled slots) :
    Settled (slots ++ slots') ↔ Settled slots' := by
  induction slots with
  | nil => rfl
  | cons slot slots ih =>
    cases slot with
    | token t =>
      refine (and_iff_right ?_).trans (ih first.2)
      cases slots with
      | nil => exact Token.admits_of_none first.1 _
      | cons next slots =>
        have same : next? (next :: slots ++ slots') = next? (next :: slots) := by cases next <;> rfl
        exact (congrArg t.admits same).trans first.1
    | sameLine =>
      refine (and_iff_right ?_).trans (ih first.2)
      cases slots with
      | nil => cases first.1
      | cons next slots =>
        have same : next? (next :: slots ++ slots') = next? (next :: slots) := by cases next <;> rfl
        exact (congrArg Option.isSome same).trans first.1
    | elision => exact ih first

@[simp] theorem allSettled_nil : AllSettled [] := List.forall_mem_nil _

@[simp] theorem allSettled_singleton {part : List Slot} : AllSettled [part] ↔ Settled part := List.forall_mem_singleton

@[simp] theorem allSettled_append {parts parts' : List (List Slot)} :
    AllSettled (parts ++ parts') ↔ AllSettled parts ∧ AllSettled parts' := List.forall_mem_append

@[simp] theorem settled_flatten {parts : List (List Slot)} (all : AllSettled parts) : Settled parts.flatten := by
  induction parts with
  | nil => trivial
  | cons part parts ih =>
    obtain ⟨first, others⟩ := List.forall_mem_cons.mp all
    rw [List.flatten_cons, settled_append first]
    exact ih others

theorem settled_separated {separator : List Slot} {parts : List (List Slot)} (between : Settled separator)
    (all : AllSettled parts) : Settled (separated separator parts) := by
  fun_induction separated separator parts with
  | case1 => trivial
  | case2 part => exact all part List.mem_cons_self
  | case3 part rest _ ih =>
    obtain ⟨first, others⟩ := List.forall_mem_cons.mp all
    rw [settled_append first, settled_append between]
    exact ih others

@[simp] theorem settled_commas {parts : List (List Slot)} (all : AllSettled parts) :
    Settled (separated [punct .comma] parts) :=
  settled_separated ⟨rfl, trivial⟩ all

theorem settled_flatMap {slot : Slot} {parts : List (List Slot)}
    (free : ∀ slots, Settled slots → Settled (slot :: slots)) (all : AllSettled parts) :
    Settled (parts.flatMap (slot :: ·)) := by
  rw [List.flatMap]
  refine settled_flatten fun part member => ?_
  obtain ⟨slots, inside, rfl⟩ := List.mem_map.mp member
  exact free slots (all slots inside)

@[simp] theorem settled_flatMap_word {w : Word} {parts : List (List Slot)} (all : AllSettled parts) :
    Settled (parts.flatMap (word w :: ·)) := settled_flatMap (fun _ => settled_word.mpr) all

@[simp] theorem settled_flatMap_assign {parts : List (List Slot)} (all : AllSettled parts) :
    Settled (parts.flatMap (punct .assign :: ·)) := settled_flatMap (fun _ settled => ⟨rfl, settled⟩) all

@[simp] theorem settled_unaryOps {ops : List UnaryOp} : Settled (ops.map fun op => token op.token) := by
  induction ops with
  | nil => trivial
  | cons op ops ih => exact ⟨Token.admits_unaryOp op _, ih⟩

@[simp] theorem settled_news {count : Nat} : Settled (List.replicate count (word .kwNew)) := by
  induction count with
  | zero => trivial
  | succ count ih => exact settled_word.mpr ih

@[simp] theorem settled_function {own : Option Bytes} {params : List Bytes} {body : List Slot} (inner : Settled body) :
    Settled (function own params body) := by
  have names : Settled (separated [punct .comma] (params.map fun n => [name n])) := by
    refine settled_commas fun part member => ?_
    obtain ⟨n, -, rfl⟩ := List.mem_map.mp member
    exact settled_name.mpr trivial
  cases own <;> simp [function, names, inner]

@[simp] theorem settled_jump {w : Word} {label : Option Bytes} : Settled (jump w label) := by
  cases label <;> simp [jump]

end Slot

namespace Tree

/-- An expression that has to begin on the line begins with a token. -/
theorem settled_onLine {value : Node .sequence} (proper : value.All Proper) (settled : Slot.AllSettled value.slots) :
    Slot.Settled (.sameLine :: value.yield) := by
  obtain ⟨t, rest, same, -⟩ := heads_yield (value.heads_layout proper Kind.noConfusion 0)
  refine ⟨?_, Slot.settled_flatten settled⟩
  rw [show value.yield = _ from same]
  rfl

/-- The yield of a proper tree is settled. -/
theorem settled_slots {shape : Shape} (tree : Tree shape) (proper : tree.All Proper) : Slot.AllSettled tree.slots := by
  induction tree with
  | operation tier op offset node ih =>
    have notProgram : tier.operand ≠ .program := by cases tier <;> exact Kind.noConfusion
    obtain ⟨t, rest, same, starts, -⟩ : Heads tier.operand node.yield _ :=
      heads_yield (node.heads_layout proper notProgram 0)
    have first : t.startsExpression = true := by
      cases tier <;> exact starts
    have operand : Slot.Settled node.yield := Slot.settled_flatten (ih proper)
    rw [slots, Slot.allSettled_singleton]
    refine ⟨?_, operand⟩
    rw [show node.slots.flatten = _ from same]
    exact Token.admits_binaryOp op.1 first
  | property _ own =>
    rw [slots, Slot.allSettled_singleton]
    exact ⟨Token.isWord_ofName own, Token.admits_ofName own _, trivial⟩
  | target node op ih =>
    rw [slots, Slot.allSettled_singleton, Slot.settled_append (Slot.settled_flatten (ih proper))]
    exact ⟨Token.admits_assignOp op _, trivial⟩
  | update _ operand op ih =>
    rw [slots, Slot.allSettled_singleton, Slot.settled_append (Slot.settled_flatten (ih proper.2))]
    cases op with
    | none => trivial
    | some op => exact ⟨rfl, Token.admits_updateOp op _, trivial⟩
  | throwStmt _ value ih =>
    rw [slots, Slot.allSettled_singleton, Slot.settled_word]
    exact (Slot.settled_append (settled_onLine proper.2 (ih proper.2))).mpr ⟨rfl, trivial⟩
  | returnStmt _ value ih =>
    cases value with
    | absent => exact Slot.allSettled_singleton.mpr ⟨rfl, rfl, trivial⟩
    | present value =>
      rw [slots, flatMap_slots_present, Slot.allSettled_singleton, Slot.settled_word]
      exact (Slot.settled_append (settled_onLine proper.2 (ih proper.2))).mpr ⟨rfl, trivial⟩
  | arrayLit _ elements ih =>
    have inner := @Slot.settled_separated [.punct .comma, .elision] _ ⟨rfl, trivial⟩ (ih proper.2)
    simp [slots, inner]
  | numberLit _ value => exact Slot.allSettled_singleton.mpr ⟨rfl, trivial⟩
  | stringLit _ value => exact Slot.allSettled_singleton.mpr ⟨rfl, trivial⟩
  | _ =>
    simp only [All] at proper
    simp_all [slots, Slot.head]

theorem settled_yield {shape : Shape} {tree : Tree shape} (proper : tree.All Proper) : Slot.Settled tree.yield :=
  Slot.settled_flatten (tree.settled_slots proper)

end Tree

/-- What settled slots cover is settled. -/
theorem Covers.settled {slots : List Slot} {marks : List Mark} (covers : Covers slots marks [])
    (settled : Slot.Settled slots) : Token.Settled (marks.map Prod.fst) := by
  induction slots generalizing marks with
  | nil =>
    cases covers
    trivial
  | cons slot slots ih =>
    cases slot with
    | token t =>
      obtain ⟨newline, more, rfl, tail⟩ := covers
      refine ⟨?_, ih tail settled.2⟩
      cases slots with
      | nil => exact Token.admits_of_none settled.1 _
      | cons next slots =>
        cases next with
        | token u =>
          obtain ⟨_, _, rfl, -⟩ := tail
          exact settled.1
        | _ => exact Token.admits_of_none settled.1 _
    | sameLine => exact ih covers.2 settled.2
    | elision =>
      obtain ⟨commas, more, all, rfl, tail⟩ := covers
      induction commas with
      | nil => exact ih tail settled
      | cons comma commas ihCommas =>
        obtain ⟨isComma, others⟩ := List.forall_mem_cons.mp all
        refine ⟨?_, ihCommas others⟩
        rw [isComma]
        rfl

/-- What settled slots cover, they cover in front of anything. -/
theorem Covers.inFrontOf {slots : List Slot} {marks : List Mark} (covers : Covers slots marks [])
    (settled : Slot.Settled slots) (rest : List Mark) : Covers slots (marks ++ rest) rest := by
  induction slots generalizing marks with
  | nil =>
    cases covers
    rfl
  | cons slot slots ih =>
    cases slot with
    | token t =>
      obtain ⟨newline, more, rfl, tail⟩ := covers
      exact ⟨newline, more ++ rest, rfl, ih tail settled.2⟩
    | sameLine =>
      refine ⟨?_, ih covers.2 settled.2⟩
      obtain ⟨onLine, tail⟩ := covers
      obtain _ | ⟨_ | _ | _, slots⟩ := slots
      · cases settled.1
      · obtain ⟨newline, more, rfl, -⟩ := tail
        exact onLine
      · cases settled.1
      · cases settled.1
    | elision =>
      obtain ⟨commas, more, all, rfl, tail⟩ := covers
      exact ⟨commas, more ++ rest, all, List.append_assoc _ _ _, ih tail settled⟩

end EcmaFold
