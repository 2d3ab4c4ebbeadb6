import Mathlib.Algebra.Group.Nat.Defs
import Mathlib.Algebra.Ring.Int.Defs
import EcmaFold.Proofs.Lowering.Unknown

/-!
Arithmetic over numeric literals: parentheses, signs and the five operators `+`, `-`, `*`, `/` and `%`. Main
statement: lowering refuses such an expression exactly when some division of integers in it is undefined, otherwise
the result is a double exactly when a literal is one, and integers are evaluated in two's complement of 64 bits.
-/

namespace EcmaFold

/-- The integer with a sign of 64 bits that is congruent modulo the 64th power of two. -/
def wrap64 (i : Int) : Int := Int.bmod i (2 ^ 64)

/-- The arithmetic operators. -/
inductive ArithOp where
  | add | sub | mul | div | mod
  deriving DecidableEq, Repr

namespace ArithOp

def op : ArithOp → BinaryOp
  | add => .add
  | sub => .sub
  | mul => .mul
  | div => .div
  | mod => .mod

/-- The arithmetic operator that a binary operator is. -/
def ofOp? : BinaryOp → Option ArithOp
  | .add => some add
  | .sub => some sub
  | .mul => some mul
  | .div => some div
  | .mod => some mod
  | _ => none

theorem op_of_ofOp? {op : BinaryOp} {arith : ArithOp} (found : ofOp? op = some arith) : op = arith.op := by
  cases op <;> cases found <;> rfl

def isDivision : ArithOp → Bool
  | div | mod => true
  | _ => false

/-- The quotient is none, or none of 64 bits. -/
def Undefined (x y : Int) : Prop := y = 0 ∨ x = -2 ^ 63 ∧ y = -1

instance (x y : Int) : Decidable (Undefined x y) := inferInstanceAs (Decidable (_ ∨ _))

/-- The result for integers of 64 bits: a quotient is truncated toward zero, and a remainder has the sign of the
dividend. -/
def eval? : ArithOp → Int → Int → Option Int
  | add, x, y => some (wrap64 (x + y))
  | sub, x, y => some (wrap64 (x - y))
  | mul, x, y => some (wrap64 (x * y))
  | div, x, y => if Undefined x y then none else some (x.tdiv y)
  | mod, x, y => if Undefined x y then none else some (x.tmod y)

end ArithOp

/-- Expressions of numeric literals, signs and arithmetic operators. -/
inductive Arith where
  | literal (value : Numeral)
  | plus (e : Arith)
  | minus (e : Arith)
  | binary (op : ArithOp) (x y : Arith)

namespace Arith

/-- Whether one of the literals is a double. -/
def hasFloat : Arith → Bool
  | literal (.int _) => false
  | literal (.float _) => true
  | plus e | minus e => e.hasFloat
  | binary _ x y => x.hasFloat || y.hasFloat

/-- The value of an expression of integers in two's complement of 64 bits; none if it has no value. -/
def eval? : Arith → Option Int
  | literal (.int i) => some i.toInt
  | literal (.float _) => none
  | plus e => e.eval?
  | minus e => e.eval?.map fun i => wrap64 (-i)
  | binary op x y => x.eval?.bind fun a => y.eval?.bind fun b => op.eval? a b

/-- The expression and all expressions in it. -/
def parts : Arith → List Arith
  | literal value => [literal value]
  | plus e => plus e :: e.parts
  | minus e => minus e :: e.parts
  | binary op x y => binary op x y :: (x.parts ++ y.parts)

/-- A division of integers by zero, or of the least integer by minus one. -/
def Traps : Arith → Prop
  | binary op x y => op.isDivision = true ∧ x.hasFloat = false ∧ y.hasFloat = false ∧
      (y.eval? = some 0 ∨ x.eval? = some (-2 ^ 63) ∧ y.eval? = some (-1))
  | _ => False

/-- Some part of the expression traps. -/
def Trapping (e : Arith) : Prop := ∃ part ∈ e.parts, part.Traps

theorem trapping_plus {e : Arith} : (plus e).Trapping ↔ e.Trapping := by
  simp [Trapping, parts, Traps]

theorem trapping_minus {e : Arith} : (minus e).Trapping ↔ e.Trapping := by
  simp [Trapping, parts, Traps]

theorem trapping_binary {op : ArithOp} {x y : Arith} :
    (binary op x y).Trapping ↔ (binary op x y).Traps ∨ x.Trapping ∨ y.Trapping := by
  simp only [Trapping, parts, List.mem_cons, List.mem_append]
  grind

/-- What the value of an expression has to be. -/
def Means (e : Arith) (v : Value) : Prop :=
  e.Trapping ∧ v.isUnsupported = true ∨
    ¬ e.Trapping ∧ (e.hasFloat = true ∧ (∃ f, v = .float f) ∨
      e.hasFloat = false ∧ ∃ i : Int64, v = .int i ∧ e.eval? = some i.toInt)

/-- The expression behind unary operators, if all of them are signs. -/
def signed? : List UnaryOp → Arith → Option Arith
  | [], e => some e
  | .plus :: rest, e => (signed? rest e).map plus
  | .minus :: rest, e => (signed? rest e).map minus
  | _, _ => none

end Arith

/-- The arithmetic expression that a tree is, if it is built from numeric literals, parentheses, signs and
arithmetic operators alone. `before` is the left operand of an operation. -/
def Tree.arith? : {shape : Shape} → Tree shape → (before : Option Arith) → Option Arith
  | _, nil, before => before
  | _, cons first rest, before => rest.arith? (first.arith? before)
  | _, sequence _ (cons only nil), _ => only.arith? none
  | _, assign _ nil value, _ => value.arith? none
  | _, plain _ value, _ => value.arith? none
  | _, level _ _ head operations, _ => operations.arith? (head.arith? none)
  | _, operation _ op _ operand, before =>
    (ArithOp.ofOp? op.1).bind fun op => before.bind fun x => (operand.arith? none).map (.binary op x)
  | _, unary _ ops operand, _ => (operand.arith? none).bind (Arith.signed? ops)
  | _, update _ operand none, _ => operand.arith? none
  | _, newExpr _ 0 object, _ => object.arith? none
  | _, member _ object nil, _ => object.arith? none
  | _, paren _ expr, _ => expr.arith? none
  | _, numberLit _ value, _ => some (.literal value.value)
  | _, _, _ => none

/-! Operators on values -/

namespace Lowering

open Lowered

/-- Integers are divided unless the quotient is undefined. -/
theorem divisionTrap?_eq_none {a b : Int64} :
    BinaryInstr.divisionTrap? a b = none ↔ ¬ ArithOp.Undefined a.toInt b.toInt := by
  have zero : b.toInt = 0 ↔ b = 0 := Int64.toInt_inj (y := 0)
  have least : a.toInt = -2 ^ 63 ↔ a = Int64.minValue := Int64.toInt_inj (y := Int64.minValue)
  have minusOne : b.toInt = -1 ↔ b = -1 := Int64.toInt_inj (y := -1)
  unfold BinaryInstr.divisionTrap?
  rw [ArithOp.Undefined, zero, least, minusOne]
  split <;> simp_all

/-- The value of an arithmetic operator on two integers is that of its instruction, also where there is none. -/
theorem arithmetic_ints (op : BinaryOp) (instr onFloats : BinaryInstr) (offset : Nat) (a b : Int64) :
    (arithmetic op instr onFloats offset (.int a) (.int b)).value = (instr.fold (.int a) (.int b)).value := by
  change Lowered.value (binary instr (.int a) (.int b) >>= _) = _
  rw [bind_value, show (binary instr (.int a) (.int b)).value = (instr.fold (.int a) (.int b)).value from rfl]
  cases (instr.fold (.int a) (.int b)).value <;> rfl

/-- A division of integers is not lowered if its quotient is undefined, and otherwise gives the result of the
instruction. -/
theorem fold_division {instr : BinaryInstr} (divides : instr = .sdiv ∨ instr = .srem) {a b result : Int64}
    (found : instr.onInts a b = some result) :
    (instr.fold (.int a) (.int b)).value.isUnsupported = true ∧ ArithOp.Undefined a.toInt b.toInt ∨
      (instr.fold (.int a) (.int b)).value = .int result ∧ ¬ ArithOp.Undefined a.toInt b.toInt := by
  cases trap : BinaryInstr.divisionTrap? a b with
  | none =>
    refine .inr ⟨?_, divisionTrap?_eq_none.mp trap⟩
    rcases divides with rfl | rfl <;> simp only [BinaryInstr.fold, trap, found] <;> rfl
  | some text =>
    refine .inl ⟨?_, ?_⟩
    · rcases divides with rfl | rfl <;> simp only [BinaryInstr.fold, trap] <;> rfl
    · refine Decidable.byContradiction fun defined => ?_
      rw [divisionTrap?_eq_none.mpr defined] at trap
      cases trap

/-- A quotient that is defined fits 64 bits. -/
theorem toInt_div_of_defined {a b : Int64} (defined : ¬ ArithOp.Undefined a.toInt b.toInt) :
    (a / b).toInt = a.toInt.tdiv b.toInt := by
  by_cases least : a = Int64.minValue
  · refine Int64.toInt_div_of_ne_right a b fun minusOne => defined (.inr ⟨?_, ?_⟩)
    · rw [least, Int64.toInt_minValue]
    · rw [minusOne]
      rfl
  · exact Int64.toInt_div_of_ne_left a b least

/-- An arithmetic operator on two integers. -/
theorem arith_ints (op : ArithOp) (offset : Nat) (a b : Int64) :
    (∃ i : Int64, (binaryOp op.op offset (.int a) (.int b)).value = .int i ∧
      op.eval? a.toInt b.toInt = some i.toInt) ∨
    (binaryOp op.op offset (.int a) (.int b)).value.isUnsupported = true ∧ op.isDivision = true ∧
      ArithOp.Undefined a.toInt b.toInt := by
  cases op with
  | add => exact .inl ⟨a + b, rfl, congrArg some (Int64.toInt_add a b).symm⟩
  | sub => exact .inl ⟨a - b, rfl, congrArg some (Int64.toInt_sub a b).symm⟩
  | mul => exact .inl ⟨a * b, rfl, congrArg some (Int64.toInt_mul a b).symm⟩
  | div =>
    rw [ArithOp.op, binaryOp, arithmetic_ints]
    rcases fold_division (.inl rfl) (show BinaryInstr.onInts .sdiv a b = some (a / b) from rfl) with
      ⟨refused, undefined⟩ | ⟨done, defined⟩
    · exact .inr ⟨refused, rfl, undefined⟩
    · refine .inl ⟨a / b, done, ?_⟩
      rw [ArithOp.eval?, if_neg defined, toInt_div_of_defined defined]
  | mod =>
    rw [ArithOp.op, binaryOp, arithmetic_ints]
    rcases fold_division (.inr rfl) (show BinaryInstr.onInts .srem a b = some (a % b) from rfl) with
      ⟨refused, undefined⟩ | ⟨done, defined⟩
    · exact .inr ⟨refused, rfl, undefined⟩
    · refine .inl ⟨a % b, done, ?_⟩
      rw [ArithOp.eval?, if_neg defined, Int64.toInt_mod]

/-- An arithmetic operator on two numbers one of which is a double. -/
theorem arith_floats (op : ArithOp) (offset : Nat) {v w : Value} (left : v.isNumeric = true)
    (right : w.isNumeric = true) (float : (∃ f, v = .float f) ∨ ∃ f, w = .float f) :
    ∃ f, (binaryOp op.op offset v w).value = .float f := by
  cases v with
  | int _ =>
    cases w with
    | int _ => rcases float with ⟨_, same⟩ | ⟨_, same⟩ <;> cases same
    | float _ => cases op <;> exact ⟨_, rfl⟩
    | _ => cases right
  | float _ =>
    cases w with
    | int _ => cases op <;> exact ⟨_, rfl⟩
    | float _ => cases op <;> exact ⟨_, rfl⟩
    | _ => cases right
  | _ => cases left

end Lowering

namespace Arith

open Lowered Lowering

theorem Means.binary {x y : Arith} {v w : Value} (left : x.Means v) (right : y.Means w) (op : ArithOp) (offset : Nat) :
    (binary op x y).Means (binaryOp op.op offset v w).value := by
  rcases left with ⟨trapping, unknown⟩ | ⟨sound, left⟩
  · exact .inl ⟨trapping_binary.mpr (.inr (.inl trapping)), binaryOp_isUnsupported (.inl unknown) op.op offset⟩
  rcases right with ⟨trapping, unknown⟩ | ⟨sound', right⟩
  · exact .inl ⟨trapping_binary.mpr (.inr (.inr trapping)), binaryOp_isUnsupported (.inr unknown) op.op offset⟩
  have hereOnly (trapping : (Arith.binary op x y).Trapping) : (Arith.binary op x y).Traps :=
    (trapping_binary.mp trapping).resolve_right fun inside => inside.elim sound sound'
  rcases left with ⟨isFloat, f, rfl⟩ | ⟨isInt, i, rfl, value⟩
  · refine .inr ⟨fun trapping => ?_, .inl ⟨?_, ?_⟩⟩
    · have traps := hereOnly trapping
      simp [Traps, isFloat] at traps
    · rw [hasFloat, isFloat, Bool.true_or]
    · refine arith_floats op offset rfl ?_ (.inl ⟨f, rfl⟩)
      rcases right with ⟨-, _, rfl⟩ | ⟨-, _, rfl, -⟩ <;> rfl
  rcases right with ⟨isFloat, f, rfl⟩ | ⟨isInt', j, rfl, value'⟩
  · refine .inr ⟨fun trapping => ?_, .inl ⟨?_, arith_floats op offset rfl rfl (.inr ⟨f, rfl⟩)⟩⟩
    · have traps := hereOnly trapping
      simp [Traps, isFloat] at traps
    · rw [hasFloat, isFloat, Bool.or_true]
  have traps : (Arith.binary op x y).Traps ↔ op.isDivision = true ∧ ArithOp.Undefined i.toInt j.toInt := by
    simp [Traps, isInt, isInt', value, value', ArithOp.Undefined]
  rcases arith_ints op offset i j with ⟨k, done, result⟩ | ⟨refused, undefined⟩
  · refine .inr ⟨fun trapping => ?_, .inr ⟨?_, k, done, ?_⟩⟩
    · obtain ⟨divides, undefined⟩ := traps.mp (hereOnly trapping)
      cases op <;> simp [ArithOp.isDivision, ArithOp.eval?, undefined] at divides result
    · rw [hasFloat, isInt, isInt', Bool.or_false]
    · rw [eval?, value, value']
      exact result
  · exact .inl ⟨trapping_binary.mpr (.inl (traps.mpr undefined)), refused⟩

theorem Means.plus {e : Arith} {v : Value} (means : e.Means v) (offset : Nat) :
    (plus e).Means (unaryOp .plus offset v).value := by
  rcases means with ⟨trapping, unknown⟩ | ⟨sound, value⟩
  · exact .inl ⟨trapping_plus.mpr trapping, unaryOp_isUnsupported .plus offset unknown⟩
  · refine .inr ⟨fun trapping => sound (trapping_plus.mp trapping), ?_⟩
    rcases value with ⟨isFloat, f, rfl⟩ | ⟨isInt, i, rfl, value⟩
    · exact .inl ⟨isFloat, f, rfl⟩
    · exact .inr ⟨isInt, i, rfl, value⟩

theorem Means.minus {e : Arith} {v : Value} (means : e.Means v) (offset : Nat) :
    (minus e).Means (unaryOp .minus offset v).value := by
  rcases means with ⟨trapping, unknown⟩ | ⟨sound, value⟩
  · exact .inl ⟨trapping_minus.mpr trapping, unaryOp_isUnsupported .minus offset unknown⟩
  · refine .inr ⟨fun trapping => sound (trapping_minus.mp trapping), ?_⟩
    rcases value with ⟨isFloat, f, rfl⟩ | ⟨isInt, i, rfl, value⟩
    · exact .inl ⟨isFloat, -f, rfl⟩
    · refine .inr ⟨isInt, -i, rfl, ?_⟩
      rw [eval?, value, Int64.toInt_neg]
      rfl

/-- Signs are applied from the inside out. -/
theorem Means.signed {e signed : Arith} {v : Value} (means : e.Means v) {ops : List UnaryOp} (offset : Nat)
    (read : signed? ops e = some signed) : signed.Means (unaryOps ops offset v).value := by
  induction ops generalizing signed with
  | nil =>
    cases read
    exact means
  | cons op ops ih =>
    rw [unaryOps, bind_value]
    cases op with
    | plus =>
      obtain ⟨inner, found, rfl⟩ := Option.map_eq_some_iff.mp read
      exact (ih found).plus offset
    | minus =>
      obtain ⟨inner, found, rfl⟩ := Option.map_eq_some_iff.mp read
      exact (ih found).minus offset
    | _ => cases read

theorem means_literal {value : Numeral} {v : Value} (same : v = match value with
    | .int i => Value.int i
    | .float f => .float f) : (literal value).Means v := by
  have sound : ¬ (literal value).Trapping := by simp [Trapping, parts, Traps]
  subst same
  cases value with
  | int i => exact .inr ⟨sound, .inr ⟨rfl, i, rfl, rfl⟩⟩
  | float f => exact .inr ⟨sound, .inl ⟨rfl, f, rfl⟩⟩

end Arith

namespace Tree

open Lowered Lowering

theorem known_none {v : Value} : ∀ x ∈ (none : Option Arith), x.Means v := by
  rintro _ ⟨⟩

/-- A tree that is an arithmetic expression is lowered to what the expression means. -/
theorem lower_means {shape : Shape} (tree : Tree shape) {before : Option Arith} {v : Value} {e : Arith}
    (known : ∀ x ∈ before, x.Means v) (read : tree.arith? before = some e) : e.Means (tree.lower v).value := by
  induction tree generalizing before v e with
  | nil => exact known e read
  | cons _ _ ihFirst ihRest =>
    exact ihRest (fun x found => ihFirst known found) read
  | sequence _ list ih =>
    obtain _ | ⟨_, _ | _⟩ := list
    · cases read
    · exact @ih none _ _ known_none read
    · cases read
  | assign _ targets _ _ ih =>
    cases targets with
    | nil => exact ih known_none read
    | cons _ _ => cases read
  | plain _ _ ih => exact ih known_none read
  | level _ _ _ _ ihHead ihOperations => exact ihOperations (fun x found => ihHead known_none found) read
  | operation tier op offset operand ih =>
    obtain ⟨arith, isArith, read⟩ := Option.bind_eq_some_iff.mp read
    obtain ⟨x, left, read⟩ := Option.bind_eq_some_iff.mp read
    obtain ⟨y, right, rfl⟩ := Option.map_eq_some_iff.mp read
    have value : (Arith.binary arith x y).Means
        (binaryOp arith.op operand.span.start v (operand.lower .void).value).value :=
      (known x left).binary (ih known_none right) arith _
    rw [← ArithOp.op_of_ofOp? isArith] at value
    exact value
  | unary _ ops _ ih =>
    obtain ⟨inner, found, read⟩ := Option.bind_eq_some_iff.mp read
    exact (ih known_none found).signed _ read
  | update _ _ op ih =>
    cases op with
    | none => exact ih known_none read
    | some _ => cases read
  | newExpr _ count _ ih =>
    cases count with
    | zero => exact ih known_none read
    | succ _ => cases read
  | member _ _ modifiers ih _ =>
    cases modifiers with
    | nil => exact ih known_none read
    | cons _ _ => cases read
  | paren _ _ ih => exact ih known_none read
  | numberLit _ value =>
    cases read
    obtain ⟨_, _ | _⟩ := value <;> exact Arith.means_literal rfl
  | _ => cases read

/-- An arithmetic expression is unsupported exactly when a division of integers in it, none of whose literals is a
double, has zero for a divisor, or the least integer for a dividend and minus one for a divisor. Otherwise it is a
double exactly when one of its literals is, an integer exactly when none is, and the integer is the one to which the
expression evaluates in two's complement of 64 bits. -/
theorem lower_arith {kind : Kind} (node : Node kind) (before : Value) {e : Arith} (read : node.arith? none = some e) :
    ((node.lower before).value.isUnsupported = true ↔ ∃ part ∈ e.parts, part.Traps) ∧
    ((∀ part ∈ e.parts, ¬ part.Traps) →
      ((∃ f, (node.lower before).value = .float f) ↔ e.hasFloat = true) ∧
      ((∃ i, (node.lower before).value = .int i) ↔ e.hasFloat = false) ∧
      (e.hasFloat = false → ∃ i : Int64, (node.lower before).value = .int i ∧ e.eval? = some i.toInt)) := by
  have means : e.Means (node.lower before).value := node.lower_means known_none read
  generalize (node.lower before).value = v at means
  rcases means with ⟨trapping, unknown⟩ | ⟨sound, value⟩
  · refine ⟨iff_of_true unknown trapping, fun none => ?_⟩
    obtain ⟨part, member, traps⟩ := trapping
    exact absurd traps (none part member)
  · rcases value with ⟨isFloat, f, rfl⟩ | ⟨isInt, i, rfl, value⟩
    · refine ⟨iff_of_false Bool.noConfusion sound, fun _ => ?_⟩
      simp [isFloat]
    · refine ⟨iff_of_false Bool.noConfusion sound, fun _ => ?_⟩
      simp [isInt, value]

/-- The least integer has no literal, and dividing it by minus one is not lowered. -/
theorem lower_arith_overflow : ∃ (node : Node .sequence) (e : Arith),
    Program.parseExpression (utf8 "2 * ((0 - 9223372036854775807 - 1) / -1)") = .ok node ∧
    node.arith? none = some e ∧
    ((node.lower .void).value.isUnsupported = true ↔ ∃ part ∈ e.parts, part.Traps) ∧
    ((∀ part ∈ e.parts, ¬ part.Traps) →
      ((∃ f, (node.lower .void).value = .float f) ↔ e.hasFloat = true) ∧
      ((∃ i, (node.lower .void).value = .int i) ↔ e.hasFloat = false) ∧
      (e.hasFloat = false → ∃ i : Int64, (node.lower .void).value = .int i ∧ e.eval? = some i.toInt)) := by
  have arithmetic : ((Program.parseExpression (utf8 "2 * ((0 - 9223372036854775807 - 1) / -1)")).toOption.bind
      (·.arith? none)).isSome = true := by decide +kernel
  obtain ⟨e, found⟩ := Option.isSome_iff_exists.mp arithmetic
  obtain ⟨node, accepted, read⟩ := Option.bind_eq_some_iff.mp found
  cases result : Program.parseExpression (utf8 "2 * ((0 - 9223372036854775807 - 1) / -1)") with
  | error _ =>
    rw [result] at accepted
    cases accepted
  | ok parsed =>
    rw [result] at accepted
    cases accepted
    exact ⟨node, e, rfl, read, lower_arith node .void read⟩

end Tree

end EcmaFold
