import EcmaFold.Proofs.Double.Rounding
import EcmaFold.Double.Dyadic
import Mathlib

/-!
Doubles of natural numbers. The sum and the product of two natural numbers that are doubles is the double nearest to
the sum and the product, infinite if it is beyond the range.
-/

namespace EcmaFold.Double

open Float.Model Float.Model.UnpackedFloat

/-! Shifting and rounding -/

/-- A natural number with nothing behind it. -/
abbrev plain (mantissa : Nat) : ExtendedMantissa := ⟨mantissa, false, false⟩

theorem shiftRight_succ (mantissa k : Nat) : plain mantissa >>> (k + 1) =
    ⟨mantissa / 2 ^ (k + 1), mantissa / 2 ^ k % 2 != 0, mantissa % 2 ^ k != 0⟩ := by
  induction k with
  | zero => simp [HShiftRight.hShiftRight, Nat.repeat, ExtendedMantissa.shiftRightOne, Nat.mod_one]
  | succ k ih =>
    have step : plain mantissa >>> (k + 1 + 1) = ExtendedMantissa.shiftRightOne (plain mantissa >>> (k + 1)) := rfl
    have sticky : (mantissa / 2 ^ k % 2 != 0 || mantissa % 2 ^ k != 0) = (mantissa % 2 ^ (k + 1) != 0) := by
      rw [Nat.mod_pow_succ, Bool.eq_iff_iff]
      simp
      tauto
    rw [step, ih, ExtendedMantissa.shiftRightOne, sticky, Nat.div_div_eq_div_mul, ← Nat.pow_succ]

theorem roundedMantissa_shiftRight (mantissa k : Nat) :
    (plain mantissa >>> k).roundedMantissa = quotient mantissa k := by
  cases k with
  | zero => exact (quotient_zero mantissa).symm
  | succ k =>
    have low : mantissa % 2 ^ k < 2 ^ k := Nat.mod_lt _ (Nat.two_pow_pos k)
    rw [shiftRight_succ, quotient, Nat.mod_pow_succ, Nat.pow_succ 2 k]
    -- The next bit tells on which side of the half the remainder is, the bits behind it whether it is there exactly.
    rcases Nat.mod_two_eq_zero_or_one (mantissa / 2 ^ k) with next | next
    · simp only [next, Nat.mul_zero, Nat.add_zero]
      rw [if_pos (by omega)]
      cases mantissa % 2 ^ k != 0 <;> rfl
    · simp only [next, Nat.mul_one]
      rw [if_neg (by omega)]
      by_cases there : mantissa % 2 ^ k = 0
      · rw [if_pos (by omega), there]
        rfl
      · rw [if_neg (by omega), bne_iff_ne.mpr there]
        rfl

/-- The unpacked form of `n * 2 ^ e` for a natural number without excess bits. -/
def unpacked (n : Nat) (e : Int) : UnpackedFloat :=
  if h : n * 2 ^ 52 / 2 ^ n.log2 = 0 then .zero .positive
  else .finite .positive (n * 2 ^ 52 / 2 ^ n.log2) (n.log2 + e - 52) (Nat.pos_of_ne_zero h)

theorem mantissa_ne_zero {n : Nat} (positive : n ≠ 0) : n * 2 ^ 52 / 2 ^ n.log2 ≠ 0 := by
  have low := Nat.log2_self_le positive
  exact Nat.ne_of_gt (Nat.div_pos (by omega) (Nat.two_pow_pos _))

theorem unpacked_of_ne_zero {n : Nat} (positive : n ≠ 0) (e : Int) :
    unpacked n e = .finite .positive (n * 2 ^ 52 / 2 ^ n.log2) (n.log2 + e - 52)
      (Nat.pos_of_ne_zero (mantissa_ne_zero positive)) :=
  dif_neg (mantissa_ne_zero positive)

theorem unpacked_mul_two_pow (n j : Nat) (e : Int) : unpacked (n * 2 ^ j) e = unpacked n (e + j) := by
  by_cases zero : n = 0
  · rw [zero, Nat.zero_mul]
    rfl
  have same : n * 2 ^ j * 2 ^ 52 / 2 ^ (n.log2 + j) = n * 2 ^ 52 / 2 ^ n.log2 := by
    rw [Nat.pow_add, Nat.mul_right_comm, Nat.mul_div_mul_right _ _ (Nat.two_pow_pos j)]
  have both : n * 2 ^ j ≠ 0 := Nat.mul_ne_zero zero (Nat.ne_of_gt (Nat.two_pow_pos j))
  rw [unpacked_of_ne_zero both, unpacked_of_ne_zero zero, UnpackedFloat.finite.injEq, log2_mul_two_pow zero, same]
  refine ⟨rfl, rfl, ?_⟩
  push_cast
  ring

theorem targetExponent_eq {n : Nat} {e : Int} (range : -1022 ≤ n.log2 + e) :
    Format.binary64.targetExponent (totalExponent n e) = n.log2 + e - 52 := by
  simp only [Format.targetExponent, totalExponent, Format.mantissaBits, Format.minExponent]
  norm_num
  omega

/-- A mantissa that fits is not shifted. -/
theorem shiftToTargetExponent_eq {n : Nat} {e : Int} (range : -1022 ≤ n.log2 + e) (k : Nat) (size : n.log2 = 52 + k) :
    shiftToTargetExponent Format.binary64 n e .exact = (plain n >>> k, e + k) := by
  have amount : (Format.binary64.targetExponent (totalExponent n e) - e).toNat = k := by
    rw [targetExponent_eq range]
    omega
  rw [shiftToTargetExponent, shiftToExponent, amount]
  rfl

/-- What rounding carries into a further bit is shifted once more. -/
theorem shifted_again {n : Nat} {e : Int} (low : 2 ^ 52 ≤ n) (high : n ≤ 2 ^ 53) (range : -1074 ≤ e) :
    let shifted := shiftToTargetExponent Format.binary64 n e .exact
    (if h : shifted.1.mantissa = 0 then UnpackedFloat.zero .positive
      else .finite .positive shifted.1.mantissa shifted.2 (Nat.pos_of_ne_zero h)) = unpacked n e := by
  by_cases carry : n = 2 ^ 53
  · subst carry
    rw [shiftToTargetExponent_eq (by rw [Nat.log2_two_pow]; omega) 1 (by rw [Nat.log2_two_pow])]
    rw [unpacked_of_ne_zero (by decide)]
    simp only [Nat.log2_two_pow]
    refine (dif_neg (by decide)).trans ?_
    rw [UnpackedFloat.finite.injEq]
    refine ⟨rfl, rfl, ?_⟩
    push_cast
    ring
  · have size : n.log2 = 52 := (Nat.log2_eq_iff (by omega)).mpr ⟨low, by omega⟩
    rw [shiftToTargetExponent_eq (by rw [size]; omega) 0 (by rw [size]), unpacked_of_ne_zero (by omega)]
    refine (dif_neg (show n ≠ 0 by omega)).trans ?_
    simp only [UnpackedFloat.finite.injEq, size]
    refine ⟨trivial, ?_, ?_⟩
    · rw [Nat.mul_div_cancel _ (Nat.two_pow_pos _)]
      rfl
    · push_cast
      ring

theorem roundWithAccuracy_eq {n : Nat} {e : Int} (large : 2 ^ 52 ≤ n) (range : -1022 ≤ n.log2 + e) :
    roundWithAccuracy Format.binary64 .positive n e .exact = unpacked (rounded n) e := by
  have size := excess_of_large large
  have least := div_le_quotient n (excess n)
  have most := quotient_le n (excess n)
  obtain ⟨low, high⟩ := div_excess large
  rw [roundWithAccuracy, shiftToTargetExponent_eq range _ size]
  simp only [roundedMantissa_shiftRight]
  rw [rounded, unpacked_mul_two_pow]
  exact shifted_again (by omega) (by omega) (by omega)

theorem round_eq {n : Nat} {e : Int} (positive : n ≠ 0) (range : -1022 ≤ n.log2 + e) :
    round Format.binary64 .positive n e = unpacked (rounded n) e := by
  rw [UnpackedFloat.round, targetExponent_eq range, decreaseExponent]
  simp only
  generalize amount : (e - (n.log2 + e - 52)).toNat = j
  have shifted : n <<< j = n * 2 ^ j := Nat.shiftLeft_eq n j
  have logs : (n * 2 ^ j).log2 = n.log2 + j := log2_mul_two_pow positive j
  have large : 2 ^ 52 ≤ n * 2 ^ j := by
    rw [← Nat.le_log2 (Nat.mul_ne_zero positive (Nat.ne_of_gt (Nat.two_pow_pos j))), logs]
    omega
  rw [shifted, roundWithAccuracy_eq large (by rw [logs]; push_cast; omega), rounded_mul_two_pow, unpacked_mul_two_pow,
    Int.sub_add_cancel]

/-! Sums and products -/

/-- A positive natural number without excess bits has a mantissa of 53 bits. -/
theorem exists_unpacked {n : Nat} (positive : n ≠ 0) (exact : Exact n) :
    ∃ mantissa h, unpacked n 0 = .finite .positive mantissa (n.log2 - 52) h ∧ 2 ^ 52 ≤ mantissa ∧ mantissa < 2 ^ 53 ∧
      mantissa * 2 ^ n.log2 = n * 2 ^ 52 := by
  have low := Nat.log2_self_le positive
  have high := @Nat.lt_log2_self n
  have divides : 2 ^ n.log2 ∣ n * 2 ^ 52 := by
    by_cases large : 2 ^ 52 ≤ n
    · rw [excess_of_large large, Nat.add_comm, Nat.pow_add]
      exact Nat.mul_dvd_mul_right exact _
    · have small : n.log2 < 52 := (Nat.log2_lt positive).mpr (by omega)
      exact (Nat.pow_dvd_pow 2 small.le).trans (Nat.dvd_mul_left _ _)
  refine ⟨_, _, by rw [unpacked_of_ne_zero positive, Int.add_zero], ?_, ?_, Nat.div_mul_cancel divides⟩
  · rw [Nat.le_div_iff_mul_le (Nat.two_pow_pos _), Nat.mul_comm]
    exact Nat.mul_le_mul_right _ low
  · rw [Nat.div_lt_iff_lt_mul (Nat.two_pow_pos _)]
    rw [Nat.pow_succ] at high
    omega

theorem unpacked_cases (n : Nat) :
    unpacked n 0 = .zero .positive ∨ ∃ m e h, unpacked n 0 = .finite .positive m e h := by
  unfold unpacked
  split
  · exact .inl rfl
  · exact .inr ⟨_, _, Nat.pos_of_ne_zero ‹_›, rfl⟩

theorem mul_unpacked {a b : Nat} (exactA : Exact a) (exactB : Exact b) :
    UnpackedFloat.mul Format.binary64 (unpacked a 0) (unpacked b 0) = unpacked (rounded (a * b)) 0 := by
  by_cases zeroA : a = 0
  · rw [zeroA, Nat.zero_mul]
    rcases unpacked_cases b with same | ⟨_, _, _, same⟩ <;> rw [same] <;> rfl
  by_cases zeroB : b = 0
  · rw [zeroB, Nat.mul_zero]
    rcases unpacked_cases a with same | ⟨_, _, _, same⟩ <;> rw [same] <;> rfl
  obtain ⟨x, someX, unpackedA, lowA, -, valueA⟩ := exists_unpacked zeroA exactA
  obtain ⟨y, someY, unpackedB, lowB, -, valueB⟩ := exists_unpacked zeroB exactB
  have product : x * y * 2 ^ (a.log2 + b.log2) = a * b * 2 ^ 104 := by
    calc x * y * 2 ^ (a.log2 + b.log2) = (x * 2 ^ a.log2) * (y * 2 ^ b.log2) := by ring
      _ = (a * 2 ^ 52) * (b * 2 ^ 52) := by rw [valueA, valueB]
      _ = a * b * 2 ^ 104 := by ring
  have places : (a.log2 : Int) - 52 + (b.log2 - 52) = -104 + (a.log2 + b.log2 : Nat) := by omega
  have large : 2 ^ 52 ≤ x * y := lowA.trans (Nat.le_mul_of_pos_right x someY)
  rw [unpackedA, unpackedB, UnpackedFloat.mul]
  refine (roundWithAccuracy_eq large (by omega)).trans ?_
  calc unpacked (rounded (x * y)) (a.log2 - 52 + (b.log2 - 52))
      = unpacked (rounded (x * y * 2 ^ (a.log2 + b.log2))) (-104) := by
        rw [rounded_mul_two_pow, unpacked_mul_two_pow, places]
    _ = unpacked (rounded (a * b * 2 ^ 104)) (-104) := by rw [product]
    _ = unpacked (rounded (a * b)) 0 := by
        rw [rounded_mul_two_pow, unpacked_mul_two_pow]
        rfl

theorem normalize_natCast {n : Nat} (positive : n ≠ 0) (e : Int) :
    normalize Format.binary64 n e .positive = round Format.binary64 .positive n e := by
  have above : compare (n : Int) 0 = .gt := by
    rw [Int.compare_eq_gt]
    omega
  rw [UnpackedFloat.normalize, above]
  rfl

theorem add_unpacked {a b : Nat} (exactA : Exact a) (exactB : Exact b) :
    UnpackedFloat.add Format.binary64 (unpacked a 0) (unpacked b 0) = unpacked (rounded (a + b)) 0 := by
  by_cases zeroA : a = 0
  · rw [zeroA, Nat.zero_add, rounded_of_exact exactB]
    rcases unpacked_cases b with same | ⟨_, _, _, same⟩ <;> rw [same] <;> rfl
  by_cases zeroB : b = 0
  · rw [zeroB, Nat.add_zero, rounded_of_exact exactA]
    rcases unpacked_cases a with same | ⟨_, _, _, same⟩ <;> rw [same] <;> rfl
  obtain ⟨x, someX, unpackedA, -, -, valueA⟩ := exists_unpacked zeroA exactA
  obtain ⟨y, someY, unpackedB, -, -, valueB⟩ := exists_unpacked zeroB exactB
  -- Both are brought to the smaller exponent, where the sum is exact.
  obtain ⟨least, i, j, logA, logB, smaller⟩ : ∃ least i j, a.log2 = i + least ∧ b.log2 = j + least ∧
      min a.log2 b.log2 = least :=
    ⟨min a.log2 b.log2, a.log2 - min a.log2 b.log2, b.log2 - min a.log2 b.log2, by omega, by omega, rfl⟩
  have exponent : min ((a.log2 : Int) - 52) (b.log2 - 52) = -52 + least := by omega
  have shiftA : ((a.log2 : Int) - 52 - (-52 + least)).toNat = i := by omega
  have shiftB : ((b.log2 : Int) - 52 - (-52 + least)).toNat = j := by omega
  have sum : (x * 2 ^ i + y * 2 ^ j) * 2 ^ least = (a + b) * 2 ^ 52 := by
    calc (x * 2 ^ i + y * 2 ^ j) * 2 ^ least = x * 2 ^ (i + least) + y * 2 ^ (j + least) := by ring
      _ = (a + b) * 2 ^ 52 := by rw [← logA, ← logB, valueA, valueB, ← Nat.add_mul]
  have some : x * 2 ^ i + y * 2 ^ j ≠ 0 := by
    have := Nat.mul_pos someX (Nat.two_pow_pos i)
    omega
  rw [unpackedA, unpackedB, UnpackedFloat.add]
  simp only [decreaseExponent, exponent, shiftA, shiftB, Nat.shiftLeft_eq, Sign.apply]
  rw [← Nat.cast_add, normalize_natCast some, round_eq some (by omega)]
  calc unpacked (rounded (x * 2 ^ i + y * 2 ^ j)) (-52 + least)
      = unpacked (rounded ((x * 2 ^ i + y * 2 ^ j) * 2 ^ least)) (-52) := by
        rw [rounded_mul_two_pow, unpacked_mul_two_pow]
    _ = unpacked (rounded ((a + b) * 2 ^ 52)) (-52) := by rw [sum]
    _ = unpacked (rounded (a + b)) 0 := by
        rw [rounded_mul_two_pow, unpacked_mul_two_pow]
        rfl

/-! Packing -/

section

variable {mantissa k : Nat} {h : 0 < mantissa}

theorem pack_finite (low : 2 ^ 52 ≤ mantissa) (high : mantissa < 2 ^ 53) :
    UnpackedFloat.pack Format.binary64 (.finite .positive mantissa ((k : Int) - 52) h) =
      if 1024 ≤ k then packedInfinity Format.binary64 .positive
      else packComponents Format.binary64 .positive (BitVec.ofNat 11 (k + 1023)) (BitVec.ofNat 52 mantissa) := by
  have size : mantissa.log2 = 52 := (Nat.log2_eq_iff (by omega)).mpr ⟨low, high⟩
  have biased : ((k : Int) - 52 + Format.binary64.exponentBias + Format.binary64.mantissaBitsWithoutImplicit).toNat =
      k + 1023 := by
    have bias : (Format.binary64.exponentBias : Int) = 1023 := rfl
    have bits : (Format.binary64.mantissaBitsWithoutImplicit : Int) = 52 := rfl
    omega
  have normal : 52 + 1 = Format.binary64.mantissaBits := rfl
  have limit : 2 ^ Format.binary64.exponentBits ≤ k + 1023 + 1 ↔ 1024 ≤ k := by
    have bits : 2 ^ Format.binary64.exponentBits = 2048 := rfl
    omega
  simp only [UnpackedFloat.pack, size, biased, limit, if_pos normal]

theorem toNat_packComponents {exponent : Nat} (fits : exponent < 2 ^ 11) :
    (packComponents Format.binary64 .positive (BitVec.ofNat 11 exponent) (BitVec.ofNat 52 mantissa)).toNat =
      exponent * 2 ^ 52 + mantissa % 2 ^ 52 := by
  have positive : Sign.positive.toBitVec = 0#1 := rfl
  rw [packComponents, positive, BitVec.toNat_append, BitVec.toNat_append]
  rw [← Nat.shiftLeft_add_eq_or_of_lt (BitVec.ofNat 52 mantissa).isLt, BitVec.toNat_ofNat, BitVec.toNat_ofNat,
    BitVec.toNat_ofNat, Nat.mod_eq_of_lt fits, Nat.shiftLeft_eq]
  simp

theorem unpack_pack_finite (low : 2 ^ 52 ≤ mantissa) (high : mantissa < 2 ^ 53) (small : k < 1024) :
    (Float.Model.pack (.finite .positive mantissa ((k : Int) - 52) h)).unpack =
      .finite .positive mantissa ((k : Int) - 52) h := by
  have packed : (Float.Model.pack (.finite .positive mantissa ((k : Int) - 52) h)).unpack =
      UnpackedFloat.unpack Format.binary64
        (packComponents Format.binary64 .positive (BitVec.ofNat 11 (k + 1023)) (BitVec.ofNat 52 mantissa)) :=
    congrArg (UnpackedFloat.unpack _) ((pack_finite (h := h) low high).trans (if_neg (Nat.not_le.mpr small)))
  have field : (BitVec.ofNat 11 (k + 1023)).toNat = k + 1023 := by
    rw [BitVec.toNat_ofNat, Nat.mod_eq_of_lt (by omega)]
  have notFull : BitVec.ofNat 11 (k + 1023) ≠ -1#11 := by
    intro full
    rw [full] at field
    have : (-1#11).toNat = 2047 := rfl
    omega
  have notEmpty : BitVec.ofNat 11 (k + 1023) ≠ 0#11 := by
    intro empty
    rw [empty] at field
    have : (0#11).toNat = 0 := rfl
    omega
  have whole : (1#1 ++ BitVec.ofNat 52 mantissa).toNat = mantissa := by
    have fraction : (BitVec.ofNat 52 mantissa).toNat = mantissa % 2 ^ 52 := BitVec.toNat_ofNat ..
    have hidden : (1#1).toNat = 1 := rfl
    rw [BitVec.toNat_append, ← Nat.shiftLeft_add_eq_or_of_lt (BitVec.ofNat 52 mantissa).isLt, Nat.shiftLeft_eq]
    omega
  rw [packed, UnpackedFloat.unpack]
  simp only [unpackMantissa_packComponents, unpackExponent_packComponents, unpackSign_packComponents]
  refine (if_neg notFull).trans ((if_neg notEmpty).trans ?_)
  rw [UnpackedFloat.finite.injEq, whole, field]
  refine ⟨rfl, rfl, ?_⟩
  have bias : (Format.binary64.exponentBias : Int) = 1023 := rfl
  have bits : (Format.binary64.mantissaBitsWithoutImplicit : Int) = 52 := rfl
  omega

end

/-- The double nearest to a natural number; infinite if it is beyond the range. -/
def nearest (n : Nat) : Float := .ofModel (Float.Model.pack (unpacked (rounded n) 0))

def infinity : Float := Float.ofBits 0x7FF0000000000000

theorem nearest_rounded (n : Nat) : nearest (rounded n) = nearest n := by
  rw [nearest, rounded_of_exact (exact_rounded n), nearest]

/-- What is rounded to the 1024th power of two or beyond is infinite. -/
theorem nearest_eq_infinity {n : Nat} (large : 1024 ≤ (rounded n).log2) : nearest n = infinity := by
  have zero : rounded n ≠ 0 := by
    intro zero
    rw [zero] at large
    cases large
  obtain ⟨mantissa, some, same, low, high, -⟩ := exists_unpacked zero (exact_rounded n)
  have packed : Float.Model.pack (.finite .positive mantissa ((rounded n).log2 - 52) some) =
      Float.Model.pack (.infinity .positive) := by
    rw [Float.Model.mk.injEq]
    exact congrArg UInt64.ofBitVec ((pack_finite low high).trans (if_pos large))
  rw [nearest, same, packed]
  rfl

theorem unpack_nearest {n : Nat} (exact : Exact n) (small : n.log2 < 1024) :
    (nearest n).toModel.unpack = unpacked n 0 := by
  by_cases zero : n = 0
  · subst zero
    rfl
  obtain ⟨mantissa, some, same, low, high, -⟩ := exists_unpacked zero exact
  rw [nearest, rounded_of_exact exact, same, unpack_pack_finite low high small]

section

variable {a b : Nat} (exactA : Exact a) (exactB : Exact b) (smallA : a.log2 < 1024) (smallB : b.log2 < 1024)

include exactA exactB smallA smallB

theorem nearest_mul : nearest a * nearest b = nearest (a * b) := by
  have product : nearest a * nearest b = .ofModel (Float.Model.pack
      (UnpackedFloat.mul Format.binary64 (nearest a).toModel.unpack (nearest b).toModel.unpack)) := rfl
  rw [product, unpack_nearest exactA smallA, unpack_nearest exactB smallB, mul_unpacked exactA exactB, nearest]

theorem nearest_add : nearest a + nearest b = nearest (a + b) := by
  have sum : nearest a + nearest b = .ofModel (Float.Model.pack
      (UnpackedFloat.add Format.binary64 (nearest a).toModel.unpack (nearest b).toModel.unpack)) := rfl
  rw [sum, unpack_nearest exactA smallA, unpack_nearest exactB smallB, add_unpacked exactA exactB, nearest]

end

/-- Natural numbers beyond 53 bits are read as the nearest double. -/
theorem ofScientific_eq_nearest {n : Nat} (large : 2 ^ 53 ≤ n) : Float.ofScientific n false 0 = nearest n := by
  have slow : Float.ofScientific n false 0 = .ofModel (Float.Model.ofScientific n 0) :=
    dif_neg fun fast => Nat.not_lt.mpr large fast.1
  have logs : (n * 2 ^ 53).log2 = n.log2 + 53 := log2_mul_two_pow (by omega) 53
  have model : UnpackedFloat.ofScientific Format.binary64 n 0 =
      roundWithAccuracy Format.binary64 .positive (n * 2 ^ 53) (-53) .exact := by
    have range : (2 : Int) ^ Format.binary64.exponentBits = 2048 := rfl
    have bits : Format.binary64.mantissaBits = 53 := rfl
    have one : 10 ^ (0 : Int).toNat = 1 := rfl
    have signs : Sign.positive * Sign.positive = .positive := rfl
    rw [UnpackedFloat.ofScientific, dif_neg (by omega), if_neg (by decide), if_neg (by omega),
      if_pos (Int.le_refl 0), UnpackedFloat.mul]
    simp only [bits, one, signs, Nat.shiftLeft_eq, Nat.mul_one, Int.add_zero]
    rfl
  rw [slow, Float.Model.ofScientific, model, roundWithAccuracy_eq (by omega) (by omega), rounded_mul_two_pow,
    unpacked_mul_two_pow]
  rfl

theorem ofNat_eq_nearest {n : Nat} (small : n < 17) : Float.ofNat n = nearest n := by
  have table : ∀ n : Fin 17, Float.ofNat n = nearest n := by decide
  exact table ⟨n, small⟩

theorem infinity_mul : infinity * 16 = infinity := rfl

theorem infinity_add {n : Nat} (small : n < 16) : infinity + nearest n = infinity := by
  have table : ∀ n : Fin 16, infinity + nearest n = infinity := by decide
  exact table ⟨n, small⟩

end EcmaFold.Double
