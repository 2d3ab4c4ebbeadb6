import EcmaFold.Proofs.Lowering.Basic

/-!
Chains of operands and binary operators, evaluated in one pass with two stacks. One table says how tight an operator
binds, and operators that bind equally tight are applied from left to right. Main statement: a chain is evaluated by
parting it at the last of its loosest operators.
-/

namespace EcmaFold

/-- How tight a binary operator binds. -/
def BinaryOp.precedence : BinaryOp → Nat
  | lor => 1
  | land => 2
  | bitOr => 3
  | bitXor => 4
  | bitAnd => 5
  | eq | ne | strictEq | strictNe => 6
  | lt | gt | le | ge | instanceOf | isIn => 7
  | shl | sar | shr => 8
  | add | sub => 9
  | mul | div | mod => 10

/-- Operators and operands that wait, the latest first. -/
structure Stacks where
  operators : List BinaryOp
  operands : List Value

namespace Stacks

open Lowering

/-- Applies the operators on top that bind at least as tight as the limit. -/
def reduce (limit : Nat) : (operators : List BinaryOp) → (operands : List Value) → Lowered Stacks
  | op :: operators, y :: x :: operands =>
    if limit ≤ op.precedence then do
      let v ← binaryOp op 0 x y
      reduce limit operators (v :: operands)
    else return ⟨op :: operators, y :: x :: operands⟩
  | operators, operands => return ⟨operators, operands⟩

/-- Puts an operator and its right operand on the stacks, after what binds the left operand tighter or equally
tight is done. -/
def shift (s : Stacks) (op : BinaryOp) (operand : Value) : Lowered Stacks := do
  let s ← reduce op.precedence s.operators s.operands
  return ⟨op :: s.operators, operand :: s.operands⟩

/-- Goes through the rest of a chain. -/
def feed : Stacks → List (BinaryOp × Value) → Lowered Stacks
  | s, [] => return s
  | s, (op, operand) :: rest => do
    let s ← s.shift op operand
    s.feed rest

/-- Applies all operators that wait. -/
def settle (s : Stacks) : Lowered Value := do
  let s ← reduce 0 s.operators s.operands
  return s.operands.headD .void

/-- The value of a chain. -/
def evaluate (first : Value) (rest : List (BinaryOp × Value)) : Lowered Value := do
  let s ← feed ⟨[], [first]⟩ rest
  s.settle

/-- Each operator has its left operand, and one operand is on top. -/
def Balanced (s : Stacks) : Prop := s.operands.length = s.operators.length + 1

/-- The stacks with others below them. -/
def above (s base : Stacks) : Stacks := ⟨s.operators ++ base.operators, s.operands ++ base.operands⟩

theorem Balanced.exists_cons {op : BinaryOp} {operators : List BinaryOp} {operands : List Value}
    (balanced : Balanced ⟨op :: operators, operands⟩) :
    ∃ y x more, operands = y :: x :: more ∧ ∀ v, Balanced ⟨operators, v :: more⟩ := by
  obtain _ | ⟨y, _ | ⟨x, more⟩⟩ := operands
  · cases balanced
  · cases balanced
  · exact ⟨y, x, more, rfl, fun _ => Nat.succ.inj balanced⟩

theorem Balanced.exists_single {operands : List Value} (balanced : Balanced ⟨[], operands⟩) :
    ∃ v, operands = [v] := List.length_eq_one_iff.mp balanced

/-- Reducing keeps stacks balanced and leaves operators that were there. -/
theorem reduce_value (limit : Nat) {operators : List BinaryOp} {operands : List Value}
    (balanced : Balanced ⟨operators, operands⟩) :
    (reduce limit operators operands).value.Balanced ∧
      (reduce limit operators operands).value.operators ⊆ operators := by
  induction operators generalizing operands with
  | nil =>
    obtain ⟨v, rfl⟩ := balanced.exists_single
    exact ⟨balanced, List.Subset.refl _⟩
  | cons op operators ih =>
    obtain ⟨y, x, more, rfl, next⟩ := balanced.exists_cons
    rw [reduce]
    split
    · have inner := ih (next (binaryOp op 0 x y).value)
      exact ⟨inner.1, List.subset_cons_of_subset op inner.2⟩
    · exact ⟨balanced, List.Subset.refl _⟩

/-- What lies below an operator that binds less than the limit is not reached. -/
theorem reduce_above {limit : Nat} {operators : List BinaryOp} {operands : List Value} {base : Stacks}
    (balanced : Balanced ⟨operators, operands⟩) (loose : ∀ op ∈ base.operators.head?, op.precedence < limit) :
    reduce limit (operators ++ base.operators) (operands ++ base.operands) =
      (above · base) <$> reduce limit operators operands := by
  induction operators generalizing operands with
  | nil =>
    obtain ⟨v, rfl⟩ := balanced.exists_single
    obtain ⟨_ | ⟨op, waiting⟩, _ | ⟨x, below⟩⟩ := base
    · rfl
    · rfl
    · rfl
    · exact if_neg (Nat.not_le.mpr (loose op rfl))
  | cons op operators ih =>
    obtain ⟨y, x, more, rfl, next⟩ := balanced.exists_cons
    change reduce limit (op :: (operators ++ base.operators)) (y :: x :: (more ++ base.operands)) = _
    rw [reduce, reduce]
    split
    · rw [map_bind]
      exact bind_congr fun v => ih (next v)
    · rw [map_pure]
      rfl

/-- Reducing goes on from where a higher limit stops. -/
theorem reduce_reduce {limit higher : Nat} (le : limit ≤ higher) (operators : List BinaryOp) (operands : List Value) :
    reduce higher operators operands >>= (fun s => reduce limit s.operators s.operands) =
      reduce limit operators operands := by
  fun_induction reduce higher operators operands with
  | case1 op operators y x operands tight ih =>
    rw [bind_assoc, reduce, if_pos (Nat.le_trans le tight)]
    exact bind_congr fun v => ih v
  | case2 => rw [pure_bind]
  | case3 => rw [pure_bind]

/-- All operators are applied if all bind at least as tight as the limit. -/
theorem reduce_all {limit : Nat} {s : Stacks} (balanced : s.Balanced)
    (tight : ∀ op ∈ s.operators, limit ≤ op.precedence) :
    reduce limit s.operators s.operands = (fun v => ⟨[], [v]⟩) <$> s.settle := by
  obtain ⟨operators, operands⟩ := s
  rw [settle]
  induction operators generalizing operands with
  | nil =>
    obtain ⟨v, rfl⟩ := balanced.exists_single
    rfl
  | cons op operators ih =>
    obtain ⟨y, x, more, rfl, next⟩ := balanced.exists_cons
    obtain ⟨first, others⟩ := List.forall_mem_cons.mp tight
    simp only [reduce, if_pos first, if_pos (Nat.zero_le _), map_bind, bind_assoc]
    refine bind_congr fun v => ?_
    rw [ih (v :: more) (next v) others, map_bind]

theorem feed_append (s : Stacks) (left right : List (BinaryOp × Value)) :
    s.feed (left ++ right) = s.feed left >>= fun s => s.feed right := by
  induction left generalizing s with
  | nil => rw [List.nil_append, feed, pure_bind]
  | cons pair left ih =>
    obtain ⟨op, operand⟩ := pair
    rw [List.cons_append, feed, feed, bind_assoc]
    exact bind_congr fun s => ih s

theorem shift_value {s : Stacks} (balanced : s.Balanced) (op : BinaryOp) (operand : Value) :
    (s.shift op operand).value.Balanced ∧ (s.shift op operand).value.operators ⊆ op :: s.operators := by
  obtain ⟨kept, inside⟩ := reduce_value op.precedence balanced
  exact ⟨congrArg Nat.succ kept, List.cons_subset_cons op inside⟩

/-- Going through a chain keeps stacks balanced, and only its operators are added. -/
theorem feed_value {s : Stacks} (balanced : s.Balanced) (rest : List (BinaryOp × Value)) :
    (s.feed rest).value.Balanced ∧ (s.feed rest).value.operators ⊆ rest.map Prod.fst ++ s.operators := by
  induction rest generalizing s with
  | nil => exact ⟨balanced, List.Subset.refl _⟩
  | cons pair rest ih =>
    obtain ⟨op, operand⟩ := pair
    obtain ⟨kept, inside⟩ := shift_value balanced op operand
    obtain ⟨keptAll, insideAll⟩ := ih kept
    refine ⟨keptAll, fun waiting member => ?_⟩
    have split := List.mem_append.mp (insideAll member)
    grind

/-- What lies below an operator that binds less than the whole chain is not reached. -/
theorem feed_above {s base : Stacks} (balanced : s.Balanced) {rest : List (BinaryOp × Value)}
    (loose : ∀ op ∈ base.operators.head?, ∀ pair ∈ rest, op.precedence < pair.1.precedence) :
    (s.above base).feed rest = (above · base) <$> s.feed rest := by
  induction rest generalizing s with
  | nil => rw [feed, feed, map_pure]
  | cons pair rest ih =>
    obtain ⟨op, operand⟩ := pair
    have first : (s.above base).shift op operand = (above · base) <$> s.shift op operand := by
      rw [shift, shift, above]
      simp only [reduce_above balanced fun waiting member => loose waiting member _ List.mem_cons_self]
      simp [above]
    rw [feed, feed, first, bind_map_left, map_bind]
    exact Lowered.bind_congr_value (ih (shift_value balanced op operand).1 fun waiting member pair inside =>
      loose waiting member pair (List.mem_cons_of_mem _ inside))

/-- An operator that binds less than all that wait above it is applied last. -/
theorem settle_above {s : Stacks} (balanced : s.Balanced) {op : BinaryOp}
    (tight : ∀ waiting ∈ s.operators, op.precedence < waiting.precedence) (x : Value) :
    (s.above ⟨[op], [x]⟩).settle = s.settle >>= fun y => binaryOp op 0 x y := by
  rw [settle, ← reduce_reduce (Nat.zero_le (op.precedence + 1)), above,
    reduce_above balanced (by rintro _ ⟨⟩; exact Nat.lt_succ_self _), reduce_all balanced tight]
  simp [above, reduce]

/-- A chain is parted at the last of its loosest operators. -/
theorem evaluate_append (first second : Value) {op : BinaryOp} {left right : List (BinaryOp × Value)}
    (loosest : ∀ pair ∈ left, op.precedence ≤ pair.1.precedence)
    (last : ∀ pair ∈ right, op.precedence < pair.1.precedence) :
    evaluate first (left ++ (op, second) :: right) =
      evaluate first left >>= fun x => evaluate second right >>= fun y => binaryOp op 0 x y := by
  rw [evaluate, evaluate, feed_append, bind_assoc, bind_assoc]
  obtain ⟨balanced, inside⟩ := @feed_value ⟨[], [first]⟩ rfl left
  obtain ⟨balanced', inside'⟩ := @feed_value ⟨[], [second]⟩ rfl right
  refine Lowered.bind_congr_value ?_
  have tight : ∀ waiting ∈ (feed ⟨[], [first]⟩ left).value.operators, op.precedence ≤ waiting.precedence := by
    intro waiting member
    obtain ⟨pair, inLeft, rfl⟩ := List.mem_map.mp (List.append_nil _ ▸ inside member)
    exact loosest pair inLeft
  have tight' : ∀ waiting ∈ (feed ⟨[], [second]⟩ right).value.operators, op.precedence < waiting.precedence := by
    intro waiting member
    obtain ⟨pair, inRight, rfl⟩ := List.mem_map.mp (List.append_nil _ ▸ inside' member)
    exact last pair inRight
  rw [feed, shift, reduce_all balanced tight]
  simp only [bind_map_left, bind_assoc, pure_bind]
  refine bind_congr fun x => ?_
  have framed := @feed_above ⟨[], [second]⟩ ⟨[op], [x]⟩ rfl right (by rintro _ ⟨⟩; exact last)
  change feed (above ⟨[], [second]⟩ ⟨[op], [x]⟩) right >>= settle = _
  rw [framed, bind_map_left, evaluate, bind_assoc]
  exact Lowered.bind_congr_value (settle_above balanced' tight' x)

example : (evaluate (.int 10) [(.sub, .int 4), (.sub, .int 3), (.mul, .int 2)]).value = .int 0 := rfl

end Stacks

end EcmaFold
