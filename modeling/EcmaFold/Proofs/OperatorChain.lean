import EcmaFold.Compile
import EcmaFold.Proofs.Acceptance
import EcmaFold.Proofs.Lexer.Chunks
import EcmaFold.Proofs.Lowering.OperandStack
import EcmaFold.Proofs.Lowering.Placeless
import EcmaFold.Proofs.TokenSequence
import EcmaFold.Proofs.Tree.LaidOut
import EcmaFold.Proofs.Tree.Literal

/-!
Chains of literals and binary operators. The ten tiers of the grammar and the fold of each of them give what one
pass with two stacks and one table of precedences gives, with the same instructions in the same order.
-/

namespace EcmaFold

/-- The token of a literal. -/
def Literal.token : Literal → Token
  | null => .keyword .kwNull
  | bool value => .keyword (if value then .kwTrue else .kwFalse)
  | number value => .number value
  | string value => .string value

/-- A literal as it stands in a source: a text that is one token. -/
structure Operand where
  literal : Literal
  text : Bytes
  isSpelled : Token.read text = (literal.token, text.length)

example : Operand := ⟨.number ⟨utf8 "0x1F", .int 31⟩, utf8 "0x1F", rfl⟩

example : Operand := ⟨.string (utf8 "a\n"), utf8 "'a\\n'", rfl⟩

namespace Operand

/-- The constant that an operand is lowered to. -/
def value (operand : Operand) : Value := operand.literal.value

/-- The source of what stands behind the first operand of a chain: single spaces around each operator, and a
semicolon at the end. -/
def links : List (BinaryOp × Operand) → Bytes
  | [] => [0x20, 0x3B]
  | (op, operand) :: rest => 0x20 :: (op.spelling ++ 0x20 :: (operand.text ++ links rest))

/-- The source of a chain. -/
def chain (first : Operand) (rest : List (BinaryOp × Operand)) : Bytes := first.text ++ links rest

/-- The chain that is evaluated. -/
def values (rest : List (BinaryOp × Operand)) : List (BinaryOp × Value) :=
  rest.map fun (op, operand) => (op, operand.value)

/-- The slots of a chain. -/
def slots (first : Operand) (rest : List (BinaryOp × Operand)) : List Slot :=
  .token first.literal.token :: rest.flatMap fun (op, operand) => [.token op.token, .token operand.literal.token]

theorem slots_append (first second : Operand) (op : BinaryOp) (left right : List (BinaryOp × Operand)) :
    slots first (left ++ (op, second) :: right) = slots first left ++ .token op.token :: slots second right := by
  simp [slots]

theorem token_clean (operand : Operand) : operand.literal.token.Clean := by
  have clean := (Token.read_clean operand.text).1
  rwa [operand.isSpelled] at clean

/-- An operand is a spelling of its token in front of a space. -/
theorem spells (operand : Operand) (behind : Bytes) : operand.literal.token.Spells operand.text (0x20 :: behind) := by
  obtain ⟨literal, text, isSpelled⟩ := operand
  have noSlash : literal.token ≠ .punct .div := by cases literal <;> exact Token.noConfusion
  have noStray : ∀ text, literal.token ≠ .stray text := by cases literal <;> exact fun _ => Token.noConfusion
  obtain ⟨front, rest, rfl, width, spells⟩ :=
    Token.exists_spells (fun slash => absurd slash noSlash) isSpelled noStray (by simp)
  obtain rfl : rest = [] := by simpa using width
  have behind := spells.extend (.inr rfl) behind
  rwa [← List.append_nil front] at behind

/-! The lexemes of a chain -/

theorem marks_of_spells {t : Token} {text rest : Bytes} (spells : t.Spells text rest) (newline : Bool) :
    Lexeme.marks newline (text ++ rest) = (t, newline) :: Lexeme.marks false rest := by
  rw [Lexeme.marks, Lexeme.scanFrom_of_token spells.reads.1 spells.reads.2 spells.ne_nil, List.map_cons,
    Lexeme.scanFrom_marks]
  rfl

theorem marks_space (rest : Bytes) : Lexeme.marks false (0x20 :: rest) = Lexeme.marks false rest :=
  @Lexeme.marks_of_piece false 0x20 rest ⟨1, false⟩ rfl

/-- Behind an operand the rest of its chain follows at a space. -/
theorem marks_links (operand : Operand) (rest : List (BinaryOp × Operand)) :
    Lexeme.marks false (operand.text ++ links rest) =
      (operand.literal.token, false) :: Lexeme.marks false (links rest) := by
  obtain ⟨more, same⟩ : ∃ more, links rest = 0x20 :: more := by cases rest <;> exact ⟨_, rfl⟩
  rw [same]
  exact marks_of_spells (operand.spells more) false

/-- The source of a chain is scanned as its slots. -/
theorem covers_chain (first : Operand) (rest : List (BinaryOp × Operand)) :
    Covers (slots first rest ++ [.punct .semicolon]) (Lexeme.marks false (chain first rest)) [(.ending, false)] := by
  refine ⟨false, _, marks_links first rest, ?_⟩
  induction rest with
  | nil => exact ⟨false, _, rfl, rfl⟩
  | cons pair rest ih =>
    obtain ⟨op, operand⟩ := pair
    have operator := Lexeme.marks_readsBack (op.readsBack (rfl : calm (0x20 :: (operand.text ++ links rest)) = true)) false
    refine ⟨false, _, (marks_space _).trans operator, false, _, ?_, ih⟩
    rw [marks_space, marks_links]

/-! The tree of a chain -/

open EcmaFold.Tree Stacks Lowering

/-- A node stands for a chain: it is proper, it is spelled as the chain, and it is lowered to what the chain gives. -/
structure StandsFor {kind : Kind} (node : Node kind) (first : Operand) (rest : List (BinaryOp × Operand)) : Prop where
  proper : node.All Proper
  spelled : node.yield = slots first rest
  lowered : ∀ before, (node.lower before).Same (evaluate first.value (values rest))

/-- Chains of operators that bind at least as tight as a limit have nodes of the kind. -/
def Builds (kind : Kind) (limit : Nat) : Prop :=
  ∀ (first : Operand) (rest : List (BinaryOp × Operand)), (∀ pair ∈ rest, limit ≤ pair.1.precedence) →
    ∃ node : Node kind, StandsFor node first rest

theorem builds_unary : Builds .unary 11 := by
  intro first rest tight
  cases rest with
  | cons pair rest =>
    have none : ∀ op : BinaryOp, op.precedence ≤ 10 := by
      intro op
      cases op <;> decide
    exact absurd (tight pair List.mem_cons_self) (Nat.not_le.mpr (Nat.lt_succ_of_le (none pair.1)))
  | nil =>
    let object : Node .member := .member .zero (first.literal.node .zero) .nil
    refine ⟨.unary .zero [] (.update .zero (.newExpr .zero 0 object) none), ?_, ?_, fun before => ?_⟩
    · have clean := first.token_clean
      obtain ⟨literal, _, _⟩ := first
      cases literal <;> simp_all [All, Proper, object, Literal.node, isInstantiated, Literal.token, Token.Clean]
    · obtain ⟨literal, _, _⟩ := first
      cases literal <;> rfl
    · change (((first.literal.node .zero).lower .void >>= pure) >>= pure).Same _
      rw [Literal.lower_node]
      exact ⟨rfl, rfl⟩

/-- The last operator of a chain that binds as tight as a limit, if there is one. -/
theorem exists_last (limit : Nat) (rest : List (BinaryOp × Operand)) :
    (∀ pair ∈ rest, pair.1.precedence ≠ limit) ∨
    ∃ left op second right, rest = left ++ (op, second) :: right ∧ op.precedence = limit ∧
      ∀ pair ∈ right, pair.1.precedence ≠ limit := by
  induction rest with
  | nil => exact .inl (List.forall_mem_nil _)
  | cons pair rest ih =>
    obtain ⟨op, operand⟩ := pair
    rcases ih with none | ⟨left, last, second, right, rfl, found, none⟩
    · by_cases found : op.precedence = limit
      · exact .inr ⟨[], op, operand, rest, rfl, found, none⟩
      · exact .inl (List.forall_mem_cons.mpr ⟨found, none⟩)
    · exact .inr ⟨(op, operand) :: left, last, second, right, rfl, found, none⟩

/-- A level with one more operation stands for the longer chain. -/
theorem StandsFor.snoc {tier : Tier} {head : Node tier.operand} {operations : List (Node (.operation tier))}
    {op : tier.Op} {node : Node tier.operand} {first second : Operand} {left right : List (BinaryOp × Operand)}
    (level : StandsFor (.level .zero tier head (ofList operations)) first left) (operand : StandsFor node second right)
    (loosest : ∀ pair ∈ left, op.1.precedence ≤ pair.1.precedence)
    (last : ∀ pair ∈ right, op.1.precedence < pair.1.precedence) :
    StandsFor (.level .zero tier head (ofList (operations ++ [.operation tier op 0 node]))) first
      (left ++ (op.1, second) :: right) := by
  refine ⟨?_, ?_, fun before => ?_⟩
  · obtain ⟨trivially, properHead, properList⟩ := level.proper
    refine ⟨trivially, properHead, all_ofList.mpr (List.forall_mem_append.mpr ⟨all_ofList.mp properList, ?_⟩)⟩
    exact List.forall_mem_singleton.mpr operand.proper
  · have split (list : List (Node (.operation tier))) :
        (Tree.level .zero tier head (ofList list)).yield = head.yield ++ (ofList list).yield := List.append_nil _
    have added : (ofList [.operation tier op 0 node]).yield = .token op.1.token :: node.yield := by
      rw [yield_ofList, List.map_singleton, List.flatten_singleton]
      exact List.append_nil _
    have spelled := level.spelled
    rw [split] at spelled ⊢
    rw [yield_ofList_append, ← List.append_assoc, spelled, added, operand.spelled, slots_append]
  · have split : (Tree.level .zero tier head (ofList (operations ++ [.operation tier op 0 node]))).lower before =
        (Tree.level .zero tier head (ofList operations)).lower before >>= fun x =>
          node.lower .void >>= fun y => binaryOp op.1 node.span.start x y := by
      change head.lower .void >>= (ofList _).lower = (head.lower .void >>= (ofList operations).lower) >>= _
      rw [bind_assoc]
      refine bind_congr fun v => (lower_ofList_append _ _ v).trans (bind_congr fun x => ?_)
      exact bind_pure _
    have parted : evaluate first.value (values (left ++ (op.1, second) :: right)) =
        evaluate first.value (values left) >>= fun x =>
          evaluate second.value (values right) >>= fun y => binaryOp op.1 0 x y := by
      rw [values, List.map_append]
      exact evaluate_append first.value second.value (List.forall_mem_map.mpr loosest) (List.forall_mem_map.mpr last)
    rw [split, parted]
    refine (level.lowered before).bind fun x => (operand.lowered .void).bind fun y => ?_
    exact binaryOp_same _ _ _ _ _

/-- A tier builds what it has operators for, from operands for what binds tighter. -/
theorem builds_tier {tier : Tier} {limit : Nat} (exact : ∀ op : BinaryOp, op.precedence = limit → op.tier = tier)
    (operands : Builds tier.operand (limit + 1)) : Builds (.tier tier) limit := by
  intro first rest tight
  have built : ∃ head operations, StandsFor (.level .zero tier head (ofList operations)) first rest := by
    generalize length : rest.length = n
    induction n using Nat.strongRecOn generalizing rest with
    | _ n ih =>
      rcases exists_last limit rest with none | ⟨left, op, second, right, rfl, found, none⟩
      · obtain ⟨head, stands⟩ := operands first rest fun pair member =>
          Nat.lt_of_le_of_ne (tight pair member) (none pair member).symm
        refine ⟨head, [], ⟨trivial, stands.proper, trivial⟩, ?_, fun before => ?_⟩
        · rw [← stands.spelled]
          exact (List.append_nil _).trans (List.append_nil _)
        · change (head.lower .void >>= pure).Same _
          rw [bind_pure]
          exact stands.lowered .void
      · obtain ⟨tightLeft, tightRight⟩ := List.forall_mem_append.mp tight
        obtain ⟨-, tightRight⟩ := List.forall_mem_cons.mp tightRight
        obtain ⟨head, operations, level⟩ := ih left.length (by simp at length; omega) left tightLeft rfl
        obtain ⟨node, operand⟩ := operands second right fun pair member =>
          Nat.lt_of_le_of_ne (tightRight pair member) (none pair member).symm
        subst found
        refine ⟨head, operations ++ [.operation tier ⟨op, exact op rfl⟩ 0 node], level.snoc operand tightLeft ?_⟩
        exact fun pair member => Nat.lt_of_le_of_ne (tightRight pair member) (none pair member).symm
  obtain ⟨head, operations, stands⟩ := built
  exact ⟨_, stands⟩

theorem builds_logicalOr : Builds (.tier .logicalOr) 1 := by
  have table {limit : Nat} {tier : Tier} (same : ∀ op ∈ BinaryOp.all, op.precedence = limit → op.tier = tier)
      (op : BinaryOp) (found : op.precedence = limit) : op.tier = tier := by
    refine same op ?_ found
    cases op <;> decide
  have multiplicative : Builds (.tier .multiplicative) 10 := builds_tier (table (by decide)) builds_unary
  have additive : Builds (.tier .additive) 9 := builds_tier (table (by decide)) multiplicative
  have shift : Builds (.tier .shift) 8 := builds_tier (table (by decide)) additive
  have relational : Builds (.tier .relational) 7 := builds_tier (table (by decide)) shift
  have equality : Builds (.tier .equality) 6 := builds_tier (table (by decide)) relational
  have bitAnd : Builds (.tier .bitAnd) 5 := builds_tier (table (by decide)) equality
  have bitXor : Builds (.tier .bitXor) 4 := builds_tier (table (by decide)) bitAnd
  have bitOr : Builds (.tier .bitOr) 3 := builds_tier (table (by decide)) bitXor
  have logicalAnd : Builds (.tier .logicalAnd) 2 := builds_tier (table (by decide)) bitOr
  exact builds_tier (table (by decide)) logicalAnd

/-- A literal does not begin a function. -/
theorem head_slots (first : Operand) (rest : List (BinaryOp × Operand)) :
    (Slot.tokens (slots first rest)).head? ≠ some (.keyword .kwFunction) := by
  obtain ⟨literal, _, _⟩ := first
  cases literal with
  | bool value => cases value <;> exact fun same => by cases same
  | _ => exact fun same => by cases same

end Operand

namespace Program

open Operand EcmaFold.Tree

/-- A chain of literals is accepted, and it is compiled to what one pass with two stacks gives: the same value, and
the same instructions in the same order. -/
theorem compile_chain (file : Bytes) (first : Operand) (rest : List (BinaryOp × Operand)) :
    ∃ program, parse file (chain first rest) = .ok program ∧
      program.compile.value = (Stacks.evaluate first.value (values rest)).value ∧
      program.compile.trace = (Stacks.evaluate first.value (values rest)).trace := by
  have positive : ∀ op : BinaryOp, 1 ≤ op.precedence := by
    intro op
    cases op <;> decide
  obtain ⟨node, stands⟩ := builds_logicalOr first rest fun pair _ => positive pair.1
  let expr : Node .sequence := .sequence .zero (.cons (.assign .zero .nil (.plain .zero node)) .nil)
  let tree : Node .program := .program .zero (.cons (.ofStatement (.exprStmt .zero expr)) .nil)
  have spelled : expr.yield = slots first rest := by
    rw [← stands.spelled]
    exact List.append_nil _
  have spelledTree : tree.yield = slots first rest ++ [.punct .semicolon] := by
    rw [← spelled]
    simp [tree, yield, Tree.slots]
  have proper : tree.All Proper := by
    refine ⟨trivial, ⟨?_, rfl, ⟨trivial, trivial, trivial, stands.proper⟩, trivial⟩, trivial⟩
    change expr.tokens.head? ≠ _
    rw [← expr.tokens_yield, spelled]
    exact head_slots first rest
  have covers := covers_chain first rest
  rw [← spelledTree] at covers
  obtain ⟨program, accepted, same⟩ := parse_of_covers file proper covers
  have lowered : (tree.lower .void).Same (Stacks.evaluate first.value (values rest)) := by
    change ((node.lower .void >>= pure) >>= pure).Same _
    rw [bind_pure, bind_pure]
    exact stands.lowered .void
  obtain ⟨value, trace⟩ := lower_same_of_erase_eq same .void
  exact ⟨program, accepted, value.trans lowered.1, trace.trans lowered.2⟩

end Program

end EcmaFold
