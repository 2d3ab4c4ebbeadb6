import EcmaFold.Proofs.Double.Nearest
import Mathlib.Algebra.Order.Field.Power
import Mathlib.Algebra.Order.Field.Rat
import Mathlib.Tactic.FieldSimp

/-!
The double of a natural number is the nearest of all finite doubles, with ties to even, and infinite exactly for numbers
that are half a unit beyond the largest one.
-/

namespace EcmaFold

/-- The exact value. -/
def Dyadic.value (d : Dyadic) : ℚ := (if d.negative then -1 else 1) * (d.mantissa * 2 ^ d.exponent)

namespace Double

open Float.Model Float.Model.UnpackedFloat

/-- The largest double and half a unit of its last bit. -/
def overflow : Nat := (2 ^ 54 - 1) * 2 ^ 970

/-- The double is the nearest one to a natural number. If there is another one that is equally near, it has the even
mantissa. What is too large is infinite. -/
structure IsNearest (n : Nat) (x : Float) : Prop where
  finite : n < overflow → ∃ d, Dyadic.ofFloat? x = some d ∧ ∀ y d', Dyadic.ofFloat? y = some d' →
    |d.value - n| ≤ |d'.value - n| ∧ (d'.value ≠ d.value → |d'.value - n| = |d.value - n| → d.mantissa % 2 = 0)
  infinite : overflow ≤ n → x = infinity

theorem mantissa_lt_of_ofFloat? {x : Float} {d : Dyadic} (finite : Dyadic.ofFloat? x = some d) :
    d.mantissa < 2 ^ 53 := by
  have fraction : x.toBits.toNat % Dyadic.hiddenBit < 2 ^ 52 := Nat.mod_lt _ (Nat.two_pow_pos 52)
  have hidden : Dyadic.hiddenBit = 2 ^ 52 := rfl
  rw [Dyadic.ofFloat?] at finite
  split at finite
  · cases finite
  · split at finite
    · cases finite
      dsimp only
      omega
    · cases finite
      dsimp only
      omega

/-- No double lies between two neighbours of 53 bits. -/
theorem value_le_or_le {d : Dyadic} (fits : d.mantissa < 2 ^ 53) {q : Nat} (full : 2 ^ 52 ≤ q) (k : Nat) :
    d.value ≤ q * 2 ^ k ∨ (q + 1) * 2 ^ k ≤ d.value := by
  cases sign : d.negative with
  | true =>
    left
    have below : d.value ≤ 0 := by
      have : (0 : ℚ) ≤ d.mantissa * 2 ^ d.exponent := by positivity
      simp only [Dyadic.value, sign, if_true]
      linarith
    exact below.trans (by positivity)
  | false =>
    have value : d.value = d.mantissa * 2 ^ d.exponent := by simp [Dyadic.value, sign]
    rw [value]
    by_cases coarse : (k : Int) ≤ d.exponent
    · obtain ⟨j, exponent⟩ := Int.eq_ofNat_of_zero_le (by omega : 0 ≤ d.exponent - k)
      have multiple : (d.mantissa * 2 ^ d.exponent : ℚ) = (d.mantissa * 2 ^ j : Nat) * 2 ^ k := by
        rw [show d.exponent = (j + k : Nat) by omega, zpow_natCast, pow_add]
        push_cast
        ring
      rw [multiple]
      rcases Nat.lt_or_ge q (d.mantissa * 2 ^ j) with above | below
      · right
        have : (q + 1 : ℚ) ≤ (d.mantissa * 2 ^ j : Nat) := by exact_mod_cast above
        gcongr
      · left
        gcongr
    · left
      have fine : (2 : ℚ) ^ d.exponent * 2 ≤ 2 ^ k := by
        rw [← zpow_natCast, ← zpow_add_one₀ (by norm_num)]
        exact zpow_le_zpow_right₀ (by norm_num) (by omega)
      have small : (d.mantissa : ℚ) ≤ 2 * q := by
        have : d.mantissa ≤ 2 * q := by omega
        exact_mod_cast this
      have nonneg : (0 : ℚ) ≤ 2 ^ d.exponent := by positivity
      nlinarith

/-- The nearer one of two neighbours is nearer than anything that does not lie between them. -/
theorem neighbour_nearest {low unit rest v : ℚ} (nonneg : 0 ≤ rest) (less : rest < unit)
    (apart : v ≤ low ∨ low + unit ≤ v) :
    (2 * rest ≤ unit → rest ≤ |v - (low + rest)|) ∧ (unit ≤ 2 * rest → unit - rest ≤ |v - (low + rest)|) ∧
      (2 * rest < unit → |v - (low + rest)| = rest → v = low) ∧
      (unit < 2 * rest → |v - (low + rest)| = unit - rest → v = low + unit) := by
  rcases apart with below | above
  · rw [abs_of_nonpos (by linarith)]
    refine ⟨?_, ?_, ?_, ?_⟩ <;> intros <;> linarith
  · rw [abs_of_nonneg (by linarith)]
    refine ⟨?_, ?_, ?_, ?_⟩ <;> intros <;> linarith

/-- Rounding finds the nearest double, and the even one of two. -/
theorem rounded_nearest {n : Nat} (large : 2 ^ 52 ≤ n) {d : Dyadic} (fits : d.mantissa < 2 ^ 53) :
    |(rounded n : ℚ) - n| ≤ |d.value - n| ∧
      (d.value ≠ rounded n → |d.value - n| = |(rounded n : ℚ) - n| → quotient n (excess n) % 2 = 0) := by
  have neighbours := value_le_or_le fits (div_excess large).1 (excess n)
  rw [rounded]
  generalize excess n = k at neighbours ⊢
  have rest : n % 2 ^ k < 2 ^ k := Nat.mod_lt _ (Nat.two_pow_pos k)
  have whole : (n : ℚ) = (n / 2 ^ k : Nat) * 2 ^ k + (n % 2 ^ k : Nat) := by
    exact_mod_cast (Nat.div_add_mod' n (2 ^ k)).symm
  have less : ((n % 2 ^ k : Nat) : ℚ) < 2 ^ k := by exact_mod_cast rest
  obtain ⟨below, above, onlyBelow, onlyAbove⟩ := neighbour_nearest (Nat.cast_nonneg (n % 2 ^ k)) less
    (neighbours.imp_right fun after => by linarith)
  rw [← whole] at below above onlyBelow onlyAbove
  have toLow : |((n / 2 ^ k : Nat) * 2 ^ k : ℚ) - n| = (n % 2 ^ k : Nat) := by
    rw [whole, abs_of_nonpos (by linarith [(Nat.cast_nonneg (n % 2 ^ k) : (0 : ℚ) ≤ _)])]
    ring
  have toHigh : |((n / 2 ^ k : Nat) * 2 ^ k + 2 ^ k : ℚ) - n| = 2 ^ k - (n % 2 ^ k : Nat) := by
    rw [whole, abs_of_nonneg (by linarith)]
    ring
  unfold quotient
  dsimp only
  split_ifs with nearLow tie
  · have near : 2 * ((n % 2 ^ k : Nat) : ℚ) < 2 ^ k := by exact_mod_cast nearLow
    push_cast
    rw [toLow]
    exact ⟨below near.le, fun other same => absurd (onlyBelow near same) other⟩
  · have half : 2 * ((n % 2 ^ k : Nat) : ℚ) = 2 ^ k := by exact_mod_cast tie
    refine ⟨?_, fun _ _ => by omega⟩
    rcases Nat.mod_two_eq_zero_or_one (n / 2 ^ k) with even | odd
    · rw [even, Nat.add_zero]
      push_cast
      rw [toLow]
      exact below half.le
    · rw [odd]
      push_cast
      rw [add_mul, one_mul, toHigh]
      exact above half.ge
  · have near : (2 : ℚ) ^ k < 2 * (n % 2 ^ k : Nat) := by
      have : 2 ^ k < 2 * (n % 2 ^ k) := by omega
      exact_mod_cast this
    push_cast
    rw [add_mul, one_mul, toHigh]
    exact ⟨above near.le, fun other same => absurd (onlyAbove near same) other⟩

/-- The double of a natural number without excess bits is the number itself. -/
theorem ofFloat?_nearest {n : Nat} (positive : n ≠ 0) (exact : Exact n) (small : n.log2 < 1024) :
    ∃ mantissa, Dyadic.ofFloat? (nearest n) = some ⟨false, mantissa, n.log2 - 52⟩ ∧ mantissa < 2 ^ 53 ∧
      mantissa * 2 ^ n.log2 = n * 2 ^ 52 := by
  obtain ⟨mantissa, some, same, low, high, value⟩ := exists_unpacked positive exact
  refine ⟨mantissa, ?_, high, value⟩
  have packed : UnpackedFloat.pack Format.binary64 (unpacked (rounded n) 0) = packComponents Format.binary64 .positive
      (BitVec.ofNat 11 (n.log2 + 1023)) (BitVec.ofNat 52 mantissa) := by
    rw [rounded_of_exact exact, same, pack_finite low high, if_neg (Nat.not_le.mpr small)]
  have bits : (nearest n).toBits.toNat = (n.log2 + 1023) * 2 ^ 52 + (mantissa - 2 ^ 52) := by
    refine (congrArg BitVec.toNat packed).trans ((toNat_packComponents (by omega)).trans ?_)
    omega
  have sign : Dyadic.signBit = 2 ^ 63 := rfl
  have hidden : Dyadic.hiddenBit = 2 ^ 52 := rfl
  have least : Dyadic.leastExponent = -1074 := rfl
  have full : Dyadic.nonFiniteField = 2047 := rfl
  have positive : ¬ Dyadic.signBit ≤ (nearest n).toBits.toNat := by omega
  have field : (nearest n).toBits.toNat % Dyadic.signBit / Dyadic.hiddenBit = n.log2 + 1023 := by
    rw [sign, hidden]
    omega
  have fraction : Dyadic.hiddenBit + (nearest n).toBits.toNat % Dyadic.hiddenBit = mantissa := by
    rw [hidden]
    omega
  rw [Dyadic.ofFloat?]
  simp only [field, fraction, positive, decide_false]
  rw [if_neg (by omega), if_neg (by omega), Option.some.injEq, Dyadic.mk.injEq]
  exact ⟨rfl, rfl, by omega⟩

theorem value_nearest {n : Nat} (exact : Exact n) (small : n.log2 < 1024) :
    ∃ d, Dyadic.ofFloat? (nearest n) = some d ∧ d.value = n ∧ d.mantissa * 2 ^ n.log2 = n * 2 ^ 52 := by
  by_cases zero : n = 0
  · subst zero
    exact ⟨⟨false, 0, -1074⟩, rfl, by simp [Dyadic.value], by simp⟩
  obtain ⟨mantissa, finite, -, same⟩ := ofFloat?_nearest zero exact small
  refine ⟨_, finite, ?_, same⟩
  have scaled : (mantissa : ℚ) * 2 ^ n.log2 = n * 2 ^ 52 := by exact_mod_cast same
  simp only [Dyadic.value, Bool.false_eq_true, if_false, one_mul]
  rw [zpow_sub₀ (by norm_num), zpow_natCast, ← mul_div_assoc, scaled]
  norm_num

theorem lt_overflow_iff (n : Nat) : n < overflow ↔ (rounded n).log2 < 1024 := (log2_rounded_lt_iff n 970).symm

theorem isNearest_nearest (n : Nat) : IsNearest n (nearest n) where
  finite small := by
    have bound := (lt_overflow_iff n).mp small
    obtain ⟨d, finite, value, same⟩ := value_nearest (exact_rounded n) bound
    rw [nearest_rounded] at finite
    refine ⟨d, finite, fun y d' finite' => ?_⟩
    rw [value]
    by_cases large : 2 ^ 52 ≤ n
    · obtain ⟨near, even⟩ := rounded_nearest large (mantissa_lt_of_ofFloat? finite')
      exact ⟨near, fun other tie => even_mantissa large (even other tie) same⟩
    · rw [rounded_of_exact (exact_of_lt (by omega)), sub_self, abs_zero]
      exact ⟨abs_nonneg _, fun other tie => absurd (sub_eq_zero.mp (abs_eq_zero.mp tie)) other⟩
  infinite large := by
    refine nearest_eq_infinity ?_
    have := (lt_overflow_iff n).not.mp (Nat.not_lt.mpr large)
    omega

/-- Within the range, different doubles come from different rounded numbers. -/
theorem nearest_inj {a b : Nat} (smallA : a < overflow) (smallB : b < overflow) :
    nearest a = nearest b ↔ rounded a = rounded b := by
  constructor
  · intro same
    obtain ⟨d, finite, value, -⟩ := value_nearest (exact_rounded a) ((lt_overflow_iff a).mp smallA)
    obtain ⟨d', finite', value', -⟩ := value_nearest (exact_rounded b) ((lt_overflow_iff b).mp smallB)
    rw [nearest_rounded] at finite finite'
    rw [same, finite'] at finite
    cases finite
    exact Nat.cast_injective (value.symm.trans value')
  · intro same
    rw [← nearest_rounded a, same, nearest_rounded]

end Double

end EcmaFold
