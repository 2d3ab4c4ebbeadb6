import Mathlib.Algebra.Group.Nat.Defs
import Mathlib.Algebra.Ring.Int.Defs
import EcmaFold.Program
import EcmaFold.Proofs.Lowering.Basic

/-!
Shifts and bitwise operators. Integers are kept with 64 bits, but these operators work on the low 32 bits of their
operands. Main statement: the result is the integer that the usual formulas give, and an expression of such operators
has the value that a machine with words of 32 bits computes for it.
-/

namespace EcmaFold

/-! Integers of 32 bits -/

/-- The 32 bits of an integer in two's complement. -/
def lowWord (i : Int) : BitVec 32 := BitVec.ofInt 32 i

theorem toInt_lowWord (i : Int) : (lowWord i).toInt = wrap32 i := BitVec.toInt_ofInt i

theorem lowWord_wrap32 (i : Int) : lowWord (wrap32 i) = lowWord i := by
  rw [← toInt_lowWord, lowWord, BitVec.ofInt_toInt]

theorem toNat_lowWord (i : Int) : ((lowWord i).toNat : Int) = wrap32 i % 2 ^ 32 := by
  have wide : (0 : Int) ≤ i % (2 ^ 32 : Nat) := Int.emod_nonneg i (by decide)
  rw [lowWord, BitVec.toNat_ofInt, Int.toNat_of_nonneg wide, wrap32]
  exact (Int.bmod_emod (x := i) (m := 2 ^ 32)).symm

theorem wrap32_bounds (i : Int) : -2 ^ 31 ≤ wrap32 i ∧ wrap32 i ≤ 2 ^ 31 - 1 :=
  ⟨Int.le_bmod (by decide), Int.bmod_le (by decide)⟩

/-- What 32 bits can hold fits 64 bits. -/
theorem toInt_ofInt_narrow {i : Int} (least : -2 ^ 31 ≤ i) (greatest : i ≤ 2 ^ 32 - 1) : (Int64.ofInt i).toInt = i :=
  Int64.toInt_ofInt_of_le (by omega) (by omega)

theorem toInt_ofInt_wrap32 (i : Int) : (Int64.ofInt (wrap32 i)).toInt = wrap32 i :=
  toInt_ofInt_narrow (wrap32_bounds i).1 (by have := (wrap32_bounds i).2; omega)

/-- An integer of 32 bits is stored with its sign extended. -/
theorem toBitVec_ofInt_wrap32 (i : Int) : (Int64.ofInt (wrap32 i)).toBitVec = (lowWord i).signExtend 64 := by
  rw [Int64.toBitVec_ofInt, ← toInt_lowWord]
  rfl

/-- The operators on integers of 32 bits. -/
inductive WordOp where
  | shl | sar | shr | and | or | xor
  deriving DecidableEq, Repr

namespace WordOp

def op : WordOp → BinaryOp
  | shl => .shl
  | sar => .sar
  | shr => .shr
  | and => .bitAnd
  | or => .bitOr
  | xor => .bitXor

/-- The operator on integers of 32 bits that a binary operator is. -/
def ofOp? : BinaryOp → Option WordOp
  | .shl => some shl
  | .sar => some sar
  | .shr => some shr
  | .bitAnd => some and
  | .bitOr => some or
  | .bitXor => some xor
  | _ => none

theorem op_of_ofOp? {op : BinaryOp} {found : WordOp} (isWord : ofOp? op = some found) : op = found.op := by
  cases op <;> cases isWord <;> rfl

/-- By how much is shifted: the right operand modulo 32. -/
def count (y : Int) : Nat := (wrap32 y % 32).toNat

/-- The result for two integers of any size. Quotients are rounded down. -/
def eval : WordOp → Int → Int → Int
  | shl, x, y => wrap32 (wrap32 x * 2 ^ count y)
  | sar, x, y => wrap32 x / 2 ^ count y
  | shr, x, y => wrap32 x % 2 ^ 32 / 2 ^ count y
  | and, x, y => (lowWord (wrap32 x) &&& lowWord (wrap32 y)).toInt
  | or, x, y => (lowWord (wrap32 x) ||| lowWord (wrap32 y)).toInt
  | xor, x, y => (lowWord (wrap32 x) ^^^ lowWord (wrap32 y)).toInt

/-- The operator on a machine with words of 32 bits. -/
def onBits : WordOp → BitVec 32 → BitVec 32 → BitVec 32
  | shl, x, y => x <<< (y.toNat % 32)
  | sar, x, y => x.sshiftRight (y.toNat % 32)
  | shr, x, y => x >>> (y.toNat % 32)
  | and, x, y => x &&& y
  | or, x, y => x ||| y
  | xor, x, y => x ^^^ y

/-- The number that a result stands for: one without a sign behind `>>>`, one with a sign otherwise. -/
def number : WordOp → BitVec 32 → Int
  | shr, w => w.toNat
  | _, w => w.toInt

/-- The least and the greatest result. -/
def InRange : WordOp → Int → Prop
  | shr, i => 0 ≤ i ∧ i ≤ 2 ^ 32 - 1
  | _, i => -2 ^ 31 ≤ i ∧ i ≤ 2 ^ 31 - 1

theorem count_eq (y : Int) : count y = (lowWord y).toNat % 32 := by
  have low := toNat_lowWord y
  unfold count
  omega

theorem lowWord_number (op : WordOp) (w : BitVec 32) : lowWord (op.number w) = w := by
  cases op with
  | shr => exact (BitVec.ofInt_natCast 32 w.toNat).trans (BitVec.ofNat_toNat 32 w |>.trans (BitVec.setWidth_eq w))
  | _ => exact BitVec.ofInt_toInt

theorem number_inRange (op : WordOp) (w : BitVec 32) : op.InRange (op.number w) := by
  cases op with
  | shr =>
    have small := w.isLt
    simp only [InRange, number]
    omega
  | _ =>
    have bounds := wrap32_bounds w.toInt
    rw [← toInt_lowWord, lowWord, BitVec.ofInt_toInt] at bounds
    exact bounds

theorem InRange.bounds {op : WordOp} {i : Int} (inRange : op.InRange i) : -2 ^ 31 ≤ i ∧ i ≤ 2 ^ 32 - 1 := by
  cases op <;> simp only [InRange] at inRange <;> omega

theorem toInt_ofInt_number (op : WordOp) (w : BitVec 32) : (Int64.ofInt (op.number w)).toInt = op.number w :=
  toInt_ofInt_narrow (op.number_inRange w).bounds.1 (op.number_inRange w).bounds.2

/-- A product with a power of two is a shift. -/
theorem lowWord_shiftLeft (i : Int) (n : Nat) : lowWord (i * 2 ^ n) = lowWord i <<< n := by
  have power : lowWord (2 ^ n) = BitVec.twoPow 32 n := by
    rw [← BitVec.toNat_inj, BitVec.toNat_twoPow, lowWord, BitVec.toNat_ofInt]
    exact_mod_cast rfl
  rw [BitVec.shiftLeft_eq_mul_twoPow, lowWord, BitVec.ofInt_mul, ← lowWord, ← lowWord, power]

/-- The formulas say what the machine computes. -/
theorem eval_eq_number (op : WordOp) (x y : Int) : op.eval x y = op.number (op.onBits (lowWord x) (lowWord y)) := by
  cases op with
  | shl =>
    change wrap32 (wrap32 x * 2 ^ count y) = (lowWord x <<< ((lowWord y).toNat % 32)).toInt
    rw [← count_eq, ← lowWord_shiftLeft, toInt_lowWord, wrap32, wrap32, Int.bmod_mul_bmod]
    rfl
  | sar =>
    change wrap32 x / 2 ^ count y = ((lowWord x).sshiftRight ((lowWord y).toNat % 32)).toInt
    rw [← count_eq, BitVec.toInt_sshiftRight, toInt_lowWord, Int.shiftRight_eq_div_pow]
    push_cast
    rfl
  | shr =>
    change wrap32 x % 2 ^ 32 / 2 ^ count y = ((lowWord x >>> ((lowWord y).toNat % 32)).toNat : Int)
    rw [← count_eq, BitVec.toNat_ushiftRight, Nat.shiftRight_eq_div_pow, ← toNat_lowWord]
    push_cast
    rfl
  | and | or | xor =>
    rw [eval, lowWord_wrap32, lowWord_wrap32]
    rfl

end WordOp

/-- The complement of a number, by the formula and on the machine. -/
theorem complement_formula (i : Int) : -wrap32 i - 1 = (~~~ lowWord i).toInt := by
  have bounds := wrap32_bounds i
  have low := toNat_lowWord i
  rw [BitVec.toInt_not, Int.bmod_def]
  push_cast
  omega

namespace Lowering

open Lowered

/-- A bitwise operator on sign extensions gives the sign extension of its result. -/
theorem int_eq_ofInt_toInt {i : Int64} {w : BitVec 32} (extended : i.toBitVec = w.signExtend 64) :
    i = Int64.ofInt w.toInt :=
  Int64.toBitVec_inj.mp (extended.trans rfl)

/-- A shift or bitwise operator on two integers gives what the machine computes. -/
theorem binaryOp_words (op : WordOp) (offset : Nat) (x y : Int64) :
    (binaryOp op.op offset (.int x) (.int y)).value =
      .int (Int64.ofInt (op.number (op.onBits (lowWord x.toInt) (lowWord y.toInt)))) := by
  have left : wrap32 (Int64.ofInt (wrap32 x.toInt)).toInt = wrap32 x.toInt := by
    rw [toInt_ofInt_wrap32, wrap32, wrap32, Int.bmod_bmod]
  have low : (low32 (Int64.ofInt (wrap32 x.toInt)) : Int) = wrap32 x.toInt % 2 ^ 32 := by
    rw [low32, toInt_ofInt_wrap32]
    exact Int.toNat_of_nonneg (Int.emod_nonneg _ (by decide))
  have shifted : shiftCount (Int64.ofInt (wrap32 y.toInt)) = WordOp.count y.toInt := by
    rw [shiftCount, toInt_ofInt_wrap32]
    rfl
  have bits := toBitVec_ofInt_wrap32 x.toInt
  have bits' := toBitVec_ofInt_wrap32 y.toInt
  cases op with
  | shl =>
    rw [← WordOp.eval_eq_number, WordOp.eval, ← shifted, ← left, ← Int.shiftLeft_eq]
    rfl
  | sar =>
    have quotient := Int.shiftRight_eq_div_pow (wrap32 x.toInt) (WordOp.count y.toInt)
    push_cast at quotient
    rw [← WordOp.eval_eq_number, WordOp.eval, ← quotient, ← shifted, ← left]
    rfl
  | shr =>
    have quotient := congrArg (Nat.cast (R := Int)) (Nat.shiftRight_eq_div_pow (low32 (Int64.ofInt (wrap32 x.toInt)))
      (WordOp.count y.toInt))
    push_cast at quotient
    rw [← WordOp.eval_eq_number, WordOp.eval, ← low, ← quotient, ← shifted]
    rfl
  | and =>
    refine congrArg Value.int (int_eq_ofInt_toInt ?_)
    rw [Int64.toBitVec_and, bits, bits']
    exact BitVec.signExtend_and.symm
  | or =>
    refine congrArg Value.int (int_eq_ofInt_toInt ?_)
    rw [Int64.toBitVec_or, bits, bits']
    exact BitVec.signExtend_or.symm
  | xor =>
    refine congrArg Value.int (int_eq_ofInt_toInt ?_)
    rw [Int64.toBitVec_xor, bits, bits']
    exact BitVec.signExtend_xor.symm

/-- The complement of an integer. -/
theorem unaryOp_words (offset : Nat) (x : Int64) :
    (unaryOp .bitNot offset (.int x)).value = .int (Int64.ofInt (~~~ lowWord x.toInt).toInt) := by
  have bits := toBitVec_ofInt_wrap32 x.toInt
  refine congrArg Value.int (int_eq_ofInt_toInt ?_)
  have ones : (-1 : Int64).toBitVec = BitVec.allOnes 64 := rfl
  rw [Int64.toBitVec_xor, bits, ones, BitVec.xor_allOnes]
  exact (BitVec.signExtend_not (by decide)).symm

end Lowering

/-! Expressions -/

/-- Expressions of integers, shifts and bitwise operators. -/
inductive Words where
  | constant (value : Int64)
  | complement (e : Words)
  | binary (op : WordOp) (x y : Words)

/-- The integer that a value is. -/
def Value.words? : Value → Option Words
  | int i => some (.constant i)
  | _ => none

namespace Words

/-- The value by the formulas. -/
def eval : Words → Int
  | constant i => i.toInt
  | complement e => -wrap32 e.eval - 1
  | binary op x y => op.eval x.eval y.eval

/-- The bits that a machine with words of 32 bits computes, which keeps nothing else between two operators. -/
def bits : Words → BitVec 32
  | constant i => lowWord i.toInt
  | complement e => ~~~ e.bits
  | binary op x y => op.onBits x.bits y.bits

/-- The number that the bits of the machine stand for. -/
def number : Words → Int
  | constant i => i.toInt
  | complement e => (~~~ e.bits).toInt
  | binary op x y => op.number (op.onBits x.bits y.bits)

/-- The least and the greatest result of the outermost operator. -/
def InRange : Words → Int → Prop
  | constant _, _ => True
  | complement _, i => -2 ^ 31 ≤ i ∧ i ≤ 2 ^ 31 - 1
  | binary op _ _, i => op.InRange i

/-- An operator sees only the low 32 bits of its operands, so nothing is lost between two operators. -/
theorem eval_eq_number (e : Words) : e.eval = e.number ∧ lowWord e.number = e.bits := by
  induction e with
  | constant i => exact ⟨rfl, rfl⟩
  | complement e ih =>
    refine ⟨?_, BitVec.ofInt_toInt⟩
    rw [eval, number, ih.1, complement_formula, ih.2]
  | binary op x y ihLeft ihRight =>
    refine ⟨?_, op.lowWord_number _⟩
    rw [eval, number, ihLeft.1, ihRight.1, op.eval_eq_number, ihLeft.2, ihRight.2]

theorem number_inRange (e : Words) : e.InRange e.number := by
  cases e with
  | constant _ => trivial
  | complement e => exact WordOp.number_inRange .and (~~~ e.bits)
  | binary op x y => exact op.number_inRange _

/-- The value of the expression is an integer, the one to which it evaluates. -/
def Means (e : Words) (v : Value) : Prop := ∃ i : Int64, v = .int i ∧ i.toInt = e.eval

/-- Unary operators around an expression, of which complements belong to it. -/
def complemented? (offset : Nat) : List UnaryOp → Value → Option Words → Option Words
  | [], _, e => e
  | op :: ops, v, e =>
    (if op = .bitNot then (complemented? offset ops v e).map complement else none).or
      (Lowering.unaryOps (op :: ops) offset v).value.words?

end Words

/-- The expression of shifts and bitwise operators that a tree is. What is lowered to an integer in another way is one
of its constants. `before` is the left operand of an operation, and `v` the value of it. -/
def Tree.words? : {shape : Shape} → Tree shape → (v : Value) → (before : Option Words) → Option Words
  | _, nil, _, before => before
  | _, cons first rest, v, before => rest.words? (first.lower v).value (first.words? v before)
  | _, sequence _ list, _, _ => list.words? .void none
  | _, assign _ nil value, _, _ => value.words? .void none
  | _, plain _ value, _, _ => value.words? .void none
  | _, level _ _ head operations, _, _ => operations.words? (head.lower .void).value (head.words? .void none)
  | _, operation tier op offset operand, v, before =>
    ((WordOp.ofOp? op.1).bind fun op => before.bind fun x => (operand.words? .void none).map (.binary op x)).or
      ((operation tier op offset operand).lower v).value.words?
  | _, unary span ops operand, _, _ =>
    Words.complemented? span.start ops (operand.lower .void).value (operand.words? .void none)
  | _, update _ operand none, _, _ => operand.words? .void none
  | _, newExpr _ 0 object, _, _ => object.words? .void none
  | _, member _ object nil, _, _ => object.words? .void none
  | _, paren _ expr, _, _ => expr.words? .void none
  | _, tree, v, _ => (tree.lower v).value.words?

namespace Words

open Lowering Lowered

theorem means_of_words? {v : Value} {e : Words} (found : v.words? = some e) : e.Means v := by
  cases v with
  | int i =>
    cases found
    exact ⟨i, rfl, rfl⟩
  | _ => cases found

theorem Means.complement {e : Words} {v : Value} (means : e.Means v) (offset : Nat) :
    (complement e).Means (unaryOp .bitNot offset v).value := by
  obtain ⟨i, rfl, same⟩ := means
  refine ⟨_, unaryOp_words offset i, ?_⟩
  rw [eval, ← same, complement_formula]
  exact WordOp.toInt_ofInt_number .and _

theorem Means.binary {x y : Words} {v w : Value} (left : x.Means v) (right : y.Means w) (op : WordOp) (offset : Nat) :
    (binary op x y).Means (binaryOp op.op offset v w).value := by
  obtain ⟨i, rfl, same⟩ := left
  obtain ⟨j, rfl, same'⟩ := right
  refine ⟨_, binaryOp_words op offset i j, ?_⟩
  rw [eval, ← same, ← same', op.eval_eq_number, op.toInt_ofInt_number]

theorem complemented?_means {offset : Nat} {ops : List UnaryOp} {v : Value} {before : Option Words} {e : Words}
    (known : ∀ x ∈ before, x.Means v) (read : complemented? offset ops v before = some e) :
    e.Means (unaryOps ops offset v).value := by
  induction ops generalizing e with
  | nil => exact known e read
  | cons op ops ih =>
    rcases Option.or_eq_some_iff.mp read with inside | ⟨-, outside⟩
    · split at inside
      · rename_i isComplement
        subst isComplement
        obtain ⟨inner, found, rfl⟩ := Option.map_eq_some_iff.mp inside
        exact (ih found).complement offset
      · cases inside
    · exact means_of_words? outside

/-- An integer is read in one way or another. -/
theorem complemented?_isSome {offset : Nat} {ops : List UnaryOp} {v : Value} {before : Option Words} {i : Int64}
    (known : ∀ i, v = .int i → before.isSome = true) (isInt : (unaryOps ops offset v).value = .int i) :
    (complemented? offset ops v before).isSome = true := by
  cases ops with
  | nil => exact known i isInt
  | cons op ops =>
    rw [complemented?, isInt, Option.isSome_or]
    exact Bool.or_true _

end Words

namespace Tree

open Lowered Lowering

theorem means_none {v : Value} : ∀ x ∈ (none : Option Words), x.Means v := by
  rintro _ ⟨⟩

/-- What a tree is read as is what it is lowered to. -/
theorem lower_means_words {shape : Shape} (tree : Tree shape) {before : Option Words} {v : Value} {e : Words}
    (known : ∀ x ∈ before, x.Means v) (read : tree.words? v before = some e) : e.Means (tree.lower v).value := by
  induction tree generalizing before v e with
  | nil => exact known e read
  | cons _ _ ihFirst ihRest => exact ihRest (fun x found => ihFirst known found) read
  | sequence _ _ ih => exact ih means_none read
  | plain _ _ ih => exact ih means_none read
  | paren _ _ ih => exact ih means_none read
  | assign _ targets _ _ ih =>
    cases targets with
    | nil => exact ih means_none read
    | cons _ _ => exact Words.means_of_words? read
  | level _ _ _ _ ihHead ihOperations => exact ihOperations (fun x found => ihHead means_none found) read
  | operation _ op _ operand ih =>
    rcases Option.or_eq_some_iff.mp read with found | ⟨-, found⟩
    · obtain ⟨wordOp, isWord, found⟩ := Option.bind_eq_some_iff.mp found
      obtain ⟨x, left, found⟩ := Option.bind_eq_some_iff.mp found
      obtain ⟨y, right, rfl⟩ := Option.map_eq_some_iff.mp found
      have value := (known x left).binary (ih means_none right) wordOp operand.span.start
      rw [← WordOp.op_of_ofOp? isWord] at value
      exact value
    · exact Words.means_of_words? found
  | unary _ _ _ ih => exact Words.complemented?_means (fun x found => ih means_none found) read
  | update _ _ op ih =>
    cases op with
    | none => exact ih means_none read
    | some _ => exact Words.means_of_words? read
  | newExpr _ count _ ih =>
    cases count with
    | zero => exact ih means_none read
    | succ _ => exact Words.means_of_words? read
  | member _ _ modifiers ih _ =>
    cases modifiers with
    | nil => exact ih means_none read
    | cons _ _ => exact Words.means_of_words? read
  | _ => exact Words.means_of_words? read

/-- Whatever is lowered to an integer is read. -/
theorem words?_isSome {shape : Shape} (tree : Tree shape) {before : Option Words} {v : Value} {i : Int64}
    (known : ∀ i, v = .int i → before.isSome = true) (isInt : (tree.lower v).value = .int i) :
    (tree.words? v before).isSome = true := by
  have void : ∀ i, Value.void = .int i → (none : Option Words).isSome = true := by
    rintro _ ⟨⟩
  have fallback {w : Value} {i : Int64} (isInt : w = .int i) : w.words?.isSome = true := by
    rw [isInt]
    rfl
  induction tree generalizing before v i with
  | nil => exact known i isInt
  | cons _ _ ihFirst ihRest => exact ihRest (fun _ found => ihFirst known found) isInt
  | sequence _ _ ih => exact ih void isInt
  | plain _ _ ih => exact ih void isInt
  | paren _ _ ih => exact ih void isInt
  | assign _ targets _ _ ih =>
    cases targets with
    | nil => exact ih void isInt
    | cons _ _ => exact fallback isInt
  | level _ _ _ _ ihHead ihOperations => exact ihOperations (fun _ found => ihHead void found) isInt
  | operation _ _ _ _ _ =>
    refine Option.isSome_or.trans ?_
    rw [fallback isInt, Bool.or_true]
  | unary _ _ _ ih => exact Words.complemented?_isSome (fun _ found => ih void found) isInt
  | update _ _ op ih =>
    cases op with
    | none => exact ih void isInt
    | some _ => exact fallback isInt
  | newExpr _ count _ ih =>
    cases count with
    | zero => exact ih void isInt
    | succ _ => exact fallback isInt
  | member _ _ modifiers ih _ =>
    cases modifiers with
    | nil => exact ih void isInt
    | cons _ _ => exact fallback isInt
  | _ => exact fallback isInt

/-- Shifts and bitwise operators on integers of 64 bits give what the formulas say for the integers of 32 bits that are
congruent to the operands, and so does the complement; only behind `>>>` is the result without a sign. Whatever is
lowered to an integer is an expression of such operators, and its value is the one that a machine with words of 32 bits
computes, although integers are kept with 64 bits from one operator to the next. -/
theorem lower_words :
    (∀ (op : WordOp) (offset : Nat) (x y : Int64), ∃ r : Int64,
      (binaryOp op.op offset (.int x) (.int y)).value = .int r ∧ r.toInt = op.eval x.toInt y.toInt ∧
        op.InRange r.toInt) ∧
    (∀ (offset : Nat) (x : Int64), ∃ r : Int64,
      (unaryOp .bitNot offset (.int x)).value = .int r ∧ r.toInt = -wrap32 x.toInt - 1 ∧
        -2 ^ 31 ≤ r.toInt ∧ r.toInt ≤ 2 ^ 31 - 1) ∧
    ∀ {kind : Kind} (node : Node kind),
      ((∃ i, (node.lower .void).value = .int i) → ∃ e, node.words? .void none = some e) ∧
      ∀ e, node.words? .void none = some e → ∃ r : Int64,
        (node.lower .void).value = .int r ∧ r.toInt = e.eval ∧ r.toInt = e.number ∧ e.InRange r.toInt := by
  refine ⟨fun op offset x y => ?_, fun offset x => ?_, fun {kind} node => ⟨?_, fun e read => ?_⟩⟩
  · refine ⟨_, binaryOp_words op offset x y, ?_, ?_⟩
    · rw [op.toInt_ofInt_number, op.eval_eq_number]
    · rw [op.toInt_ofInt_number]
      exact op.number_inRange _
  · have result : (Int64.ofInt (~~~ lowWord x.toInt).toInt).toInt = (~~~ lowWord x.toInt).toInt :=
      WordOp.toInt_ofInt_number .and _
    refine ⟨_, unaryOp_words offset x, ?_, ?_⟩
    · rw [result, complement_formula]
    · rw [result]
      exact WordOp.number_inRange .and (~~~ lowWord x.toInt)
  · rintro ⟨i, isInt⟩
    exact Option.isSome_iff_exists.mp (node.words?_isSome (fun _ int => nomatch int) isInt)
  · obtain ⟨r, isInt, same⟩ := node.lower_means_words means_none read
    have number := same.trans e.eval_eq_number.1
    refine ⟨r, isInt, same, number, ?_⟩
    rw [number]
    exact e.number_inRange

/-- The result of `>>>` is more than 32 bits with a sign can hold, and the next operator takes its bits again. -/
example : ((Program.parseExpression (utf8 "~(-1 >>> 0) | (4294967296 + 5 << 33) >> 1")).toOption.bind fun node =>
    (node.words? .void none).map Words.eval) = some 5 := by decide +kernel

end Tree

end EcmaFold
