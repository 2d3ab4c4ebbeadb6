import Mathlib.Data.List.Forall2
import EcmaFold.Proofs.Parser.First
import EcmaFold.Proofs.Tree.WellFormed
import EcmaFold.Proofs.Vocabulary

/-!
What a tree starts with, and what may stand behind it. A production stops where its tree ends if the next
token does not bind tighter than the tree does.
-/

namespace EcmaFold

/-- The tokens that a left-hand side can start with. -/
def Token.startsLhs (t : Token) : Bool := t.startsExpression && (UnaryOp.ofToken? t).isNone

theorem Token.startsExpression_of_startsLhs {t : Token} (starts : t.startsLhs = true) :
    t.startsExpression = true := (Bool.and_eq_true_iff.mp starts).1

theorem UnaryOp.startsExpression_token (op : UnaryOp) : op.token.startsExpression = true := by
  cases op <;> rfl

/-- The tokens that a node of a kind can start with, where anything is asked of them. -/
def Kind.starts : Kind → Token → Bool
  | statement | element => Token.startsStatement
  | sequence | assign | target | cond | tier _ | unary => Token.startsExpression
  | update | lhs | member | instantiation | primary => Token.startsLhs
  | _ => fun _ => true

/-- The kind of the nodes of a shape. -/
def Shape.kind : Shape → Kind
  | node kind | list kind | optional kind => kind

/-- An operation has a space before its operator. -/
def Kind.isOperation : Kind → Bool
  | operation _ => true
  | _ => false

theorem BinaryOp.token_clean (op : BinaryOp) : op.token.Clean := by cases op <;> trivial

theorem UnaryOp.token_clean (op : UnaryOp) : op.token.Clean := by cases op <;> trivial

theorem Layout.exists_commas (first : List Piece) (rest : List (List Piece)) :
    ∃ more, commas (first :: rest) = first ++ more := by
  cases rest with
  | nil => exact ⟨[], (List.append_nil first).symm⟩
  | cons second rest => exact ⟨_, List.append_assoc _ _ _⟩

namespace Tree

/-- The slots and the pieces begin with one token, which starts a node of the kind. -/
def Heads (kind : Kind) (slots : List Slot) (pieces : List Piece) : Prop :=
  ∃ t slots', slots = .token t :: slots' ∧ kind.starts t = true ∧ t.Clean ∧
    (kind.isOperation = false → ∃ pieces', pieces = .token t :: pieces')

theorem Heads.append {kind : Kind} {slots : List Slot} {pieces : List Piece} (heads : Heads kind slots pieces)
    (slots' : List Slot) (pieces' : List Piece) (plain : kind.isOperation = false) :
    Heads kind (slots ++ slots') (pieces ++ pieces') := by
  obtain ⟨t, rest, rfl, starts, clean, lead⟩ := heads
  obtain ⟨rest', rfl⟩ := lead plain
  exact ⟨t, rest ++ slots', rfl, starts, clean, fun _ => ⟨rest' ++ pieces', rfl⟩⟩

theorem Heads.mono {kind kind' : Kind} {slots : List Slot} {pieces : List Piece} (heads : Heads kind slots pieces)
    (plain : kind.isOperation = false) (weaker : ∀ t, kind.starts t = true → kind'.starts t = true) :
    Heads kind' slots pieces := by
  obtain ⟨t, rest, rfl, starts, clean, lead⟩ := heads
  exact ⟨t, rest, rfl, weaker t starts, clean, fun _ => lead plain⟩

theorem layout_node {kind : Kind} (node : Node kind) (depth : Nat) :
    node.layout depth = [(node.layout depth).flatten] := by
  have same := congrArg List.length (map_tokens_layout node depth)
  rw [List.length_map, List.length_map, slots_node, List.length_singleton] at same
  obtain ⟨part, single⟩ := List.length_eq_one_iff.mp same
  rw [single, List.flatten_singleton]

theorem slots_cons {kind : Kind} (first : Node kind) (rest : Tree (.list kind)) :
    (cons first rest).slots = first.yield :: rest.slots := by
  rw [slots, slots_node, List.singleton_append]

theorem layout_cons {kind : Kind} (first : Node kind) (rest : Tree (.list kind)) (depth : Nat) :
    (cons first rest).layout depth = (first.layout depth).flatten :: rest.layout depth := by
  rw [layout, layout_node first, List.singleton_append, List.flatten_singleton]

theorem heads_yield {kind : Kind} {node : Node kind} {depth : Nat}
    (heads : List.Forall₂ (Heads kind) node.slots (node.layout depth)) :
    Heads kind node.slots.flatten (node.layout depth).flatten := by
  rw [slots_node, layout_node] at heads
  exact (List.forall₂_cons.mp heads).1

theorem heads_single {kind : Kind} {slots : List Slot} {pieces : List Piece} (heads : Heads kind slots pieces) :
    List.Forall₂ (Heads kind) [slots] [pieces] := .cons heads .nil

/-- Every node but a program starts with a token of its kind, in its slots and in its layout. -/
theorem heads_layout {shape : Shape} (tree : Tree shape) (proper : tree.All Proper)
    (notProgram : shape.kind ≠ .program) (depth : Nat) :
    List.Forall₂ (Heads shape.kind) tree.slots (tree.layout depth) := by
  induction tree generalizing depth with
  | nil => exact .nil
  | absent => exact .nil
  | cons node rest ihNode ihRest =>
    exact List.rel_append (ihNode proper.1 notProgram depth) (ihRest proper.2 notProgram depth)
  | present node ih => exact ih proper notProgram depth
  | program => exact absurd rfl notProgram
  | ofStatement node ih => exact ih proper Kind.noConfusion depth
  | ofBlock node _ =>
    cases node with
    | block _ list => exact heads_single ⟨_, _, rfl, rfl, trivial, fun _ => ⟨_, rfl⟩⟩
  | declaration _ own init _ => exact heads_single ⟨_, _, rfl, rfl, proper.1, fun _ => ⟨_, rfl⟩⟩
  | exprStmt _ expr ih =>
    have heads := heads_yield (ih proper.2 Kind.noConfusion depth)
    refine heads_single ((heads.append _ _ rfl).mono rfl ?_)
    exact fun t => Token.startsStatement_of_startsExpression
  | labeled _ label body _ => exact heads_single ⟨_, _, rfl, rfl, proper.1, fun _ => ⟨_, rfl⟩⟩
  | sequence _ list ih =>
    cases list with
    | nil => cases proper.1
    | cons first rest =>
      have heads := ih proper.2 Kind.noConfusion depth
      obtain ⟨more, same⟩ := Layout.exists_commas (first.layout depth).flatten (rest.layout depth)
      rw [slots_cons, layout_cons] at heads
      rw [slots, layout, slots_cons, layout_cons, Slot.separated_cons, same]
      exact heads_single ((List.forall₂_cons.mp heads).1.append _ _ rfl)
  | assign _ targets value ihTargets ihValue =>
    cases targets with
    | nil => exact heads_single (heads_yield (ihValue proper.2.2 Kind.noConfusion depth))
    | cons first rest =>
      have heads := ihTargets proper.2.1 Kind.noConfusion depth
      rw [slots_cons, layout_cons] at heads
      rw [slots, layout, slots_cons, layout_cons]
      exact heads_single (((List.forall₂_cons.mp heads).1.append _ _ rfl).append _ _ rfl)
  | target node op ih =>
    have heads := heads_yield (ih proper Kind.noConfusion depth)
    exact heads_single ((heads.append _ _ rfl).mono rfl fun t => Token.startsExpression_of_startsLhs)
  | plain _ value ih => exact ih proper.2 Kind.noConfusion depth
  | ternary _ test yes no ih =>
    have heads := heads_yield (ih proper.2.1 Kind.noConfusion depth)
    rw [slots, layout, List.append_assoc, List.append_assoc, List.append_assoc]
    exact heads_single (heads.append _ _ rfl)
  | level _ tier first operations ih =>
    have notProgram : tier.operand ≠ .program := by cases tier <;> exact Kind.noConfusion
    have plain : tier.operand.isOperation = false := by cases tier <;> rfl
    have heads := heads_yield (ih proper.2.1 notProgram depth)
    refine heads_single ((heads.append _ _ plain).mono plain ?_)
    cases tier <;> exact fun _ starts => starts
  | operation _ op _ node _ => exact heads_single ⟨_, _, rfl, rfl, op.1.token_clean, Bool.noConfusion⟩
  | unary _ ops operand ih =>
    refine heads_single ?_
    cases ops with
    | nil =>
      exact (heads_yield (ih proper.2 Kind.noConfusion depth)).mono rfl fun t => Token.startsExpression_of_startsLhs
    | cons op ops => exact ⟨_, _, rfl, op.startsExpression_token, op.token_clean, fun _ => ⟨_, rfl⟩⟩
  | update _ operand op ih =>
    exact heads_single ((heads_yield (ih proper.2 Kind.noConfusion depth)).append _ _ rfl)
  | call _ callee args modifiers ih =>
    have heads := heads_yield (ih proper.2.1 Kind.noConfusion depth)
    rw [slots, layout, List.append_assoc]
    exact heads_single (heads.append _ _ rfl)
  | newExpr _ count object ih =>
    refine heads_single ?_
    cases count with
    | zero => exact heads_yield (ih proper.2 Kind.noConfusion depth)
    | succ count => exact ⟨_, _, rfl, rfl, trivial, fun _ => ⟨_, rfl⟩⟩
  | member _ object modifiers ih =>
    have heads := heads_yield (ih proper.2.1 Kind.noConfusion depth)
    rw [slots, layout, List.append_assoc]
    exact heads_single (heads.append _ _ rfl)
  | ofInstantiation node ih => exact ih proper Kind.noConfusion depth
  | ofArguments node ih =>
    exact (ih proper Kind.noConfusion depth).imp fun _ _ heads => heads.mono rfl fun _ _ => rfl
  | instantiated node ih => exact ih proper Kind.noConfusion depth
  | ident _ own => exact heads_single ⟨_, _, rfl, rfl, proper, fun _ => ⟨_, rfl⟩⟩
  | numberLit _ value => exact heads_single ⟨_, _, rfl, rfl, proper, fun _ => ⟨_, rfl⟩⟩
  | boolLit _ value => cases value <;> exact heads_single ⟨_, _, rfl, rfl, trivial, fun _ => ⟨_, rfl⟩⟩
  | _ => exact heads_single ⟨_, _, rfl, rfl, trivial, fun _ => ⟨_, rfl⟩⟩

end Tree

/-- What covers a node begins with a token of its kind, and is longer than what comes behind it. -/
theorem Covers.starts {kind : Kind} {node : Node kind} {marks rest : List Mark}
    (covers : Covers node.yield marks rest) (proper : node.All Tree.Proper) (notProgram : kind ≠ .program) :
    ∃ t newline more, marks = (t, newline) :: more ∧ kind.starts t = true ∧ rest.length ≤ more.length ∧
      (Slot.tokens node.yield).head? = some t := by
  have heads : Tree.Heads kind node.yield _ := Tree.heads_yield (node.heads_layout proper notProgram 0)
  obtain ⟨t, slots, same, starts, -⟩ := heads
  rw [same] at covers ⊢
  obtain ⟨newline, more, rfl, tail⟩ := covers
  exact ⟨t, newline, more, rfl, starts, tail.length_le, rfl⟩

/-- How tight the operators of a tier bind. -/
def Tier.rank : Tier → Nat
  | logicalOr => 4
  | logicalAnd => 5
  | bitOr => 6
  | bitXor => 7
  | bitAnd => 8
  | equality => 9
  | relational => 10
  | shift => 11
  | additive => 12
  | multiplicative => 13

/-- How tight a token binds what stands before it: a comma the least, then assignments, the conditional, the
tiers, the operators behind an operand, calls and accesses. A token that ends an expression does not bind. -/
def Token.binds (allowIn : Bool) : Token → Nat
  | punct .comma => 1
  | punct .question => 3
  | punct .inc | punct .dec => 14
  | punct .lparen => 15
  | punct .lbracket | punct .dot => 16
  | t =>
    if (AssignOp.ofToken? t).isSome then 2
    else
      match BinaryOp.ofToken? t with
      | some op => if op = .isIn ∧ allowIn = false then 0 else op.tier.rank
      | none => 0

/-- What comes next binds less than a limit. -/
def Stops (allowIn : Bool) (limit : Nat) (marks : List Mark) : Prop :=
  ∀ mark ∈ marks.head?, mark.1.binds allowIn < limit

namespace Stops

variable {allowIn : Bool} {limit limit' : Nat} {t : Token} {newline : Bool} {marks : List Mark}

@[simp] theorem cons_iff : Stops allowIn limit ((t, newline) :: marks) ↔ t.binds allowIn < limit := by
  simp [Stops]

theorem mono (stops : Stops allowIn limit marks) (least : limit ≤ limit') : Stops allowIn limit' marks :=
  fun mark first => Nat.lt_of_lt_of_le (stops mark first) least

/-- A token that binds tighter does not come next. -/
theorem ne (stops : Stops allowIn limit marks) {u : Token} (tight : limit ≤ u.binds allowIn) :
    ∀ mark ∈ marks.head?, mark.1 ≠ u := by
  rintro mark first rfl
  exact Nat.not_lt.mpr tight (stops mark first)

end Stops

theorem AssignOp.binds_token (op : AssignOp) (allowIn : Bool) : op.token.binds allowIn = 2 := by
  cases op <;> rfl

theorem AssignOp.ofToken?_of_binds {t : Token} {allowIn : Bool} (loose : t.binds allowIn < 2) :
    ofToken? t = none := by
  cases found : ofToken? t with
  | none => rfl
  | some op =>
    rw [← op.token_of_ofToken? found, op.binds_token] at loose
    exact absurd loose (Nat.lt_irrefl 2)

theorem BinaryOp.binds_token (op : BinaryOp) {allowIn : Bool} (allowed : allowIn = false → op ≠ .isIn) :
    op.token.binds allowIn = op.tier.rank := by
  cases op with
  | isIn =>
    cases allowIn with
    | false => exact absurd rfl (allowed rfl)
    | true => rfl
  | _ => rfl

theorem Tier.opOf?_of_binds {tier : Tier} {t : Token} {allowIn : Bool} (other : t.binds allowIn < tier.rank) :
    tier.opOf? allowIn t = none := by
  cases found : tier.opOf? allowIn t with
  | none => rfl
  | some op =>
    obtain ⟨rfl, allowed⟩ := Tier.opOf?_eq_some found
    rw [BinaryOp.binds_token op.1 allowed, op.2] at other
    exact absurd other (Nat.lt_irrefl _)

end EcmaFold
