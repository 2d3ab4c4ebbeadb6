import Mathlib.Algebra.Order.Ring.Nat
import Mathlib.Tactic.Ring

/-!
Natural numbers rounded to the 53 significant bits of a double. Rounding commutes with powers of two, and a digit
added far below the last significant bit is lost.
-/

namespace EcmaFold.Double

/-- The natural number nearest to `n / 2 ^ k`, the even one of two that are equally near. -/
def quotient (n k : Nat) : Nat :=
  let below := n / 2 ^ k
  let remainder := n % 2 ^ k
  if 2 * remainder < 2 ^ k then below
  else if 2 * remainder = 2 ^ k then below + below % 2
  else below + 1

/-- The number of bits behind the 53 that are significant. -/
def excess (n : Nat) : Nat := n.log2 - 52

/-- The nearest natural number without excess bits, the one with the even mantissa of two that are equally near. -/
def rounded (n : Nat) : Nat := quotient n (excess n) * 2 ^ excess n

/-- At most 53 bits are significant. -/
def Exact (n : Nat) : Prop := 2 ^ excess n ∣ n

theorem quotient_zero (n : Nat) : quotient n 0 = n := by simp [quotient, Nat.mod_one]

theorem quotient_of_dvd {n k : Nat} (divides : 2 ^ k ∣ n) : quotient n k = n / 2 ^ k := by
  rw [quotient, Nat.mod_eq_zero_of_dvd divides]
  exact if_pos (Nat.two_pow_pos k)

theorem quotient_mul_two_pow (n j k : Nat) : quotient (n * 2 ^ j) (k + j) = quotient n k := by
  have positive := Nat.two_pow_pos j
  have below : n * 2 ^ j / 2 ^ (k + j) = n / 2 ^ k := by rw [Nat.pow_add, Nat.mul_div_mul_right _ _ positive]
  have remainder : n * 2 ^ j % 2 ^ (k + j) = n % 2 ^ k * 2 ^ j := by rw [Nat.pow_add, Nat.mul_mod_mul_right]
  have double : 2 * (n % 2 ^ k * 2 ^ j) = 2 * (n % 2 ^ k) * 2 ^ j := (Nat.mul_assoc _ _ _).symm
  have less : 2 * (n % 2 ^ k * 2 ^ j) < 2 ^ (k + j) ↔ 2 * (n % 2 ^ k) < 2 ^ k := by
    rw [double, Nat.pow_add, Nat.mul_lt_mul_right positive]
  have tie : 2 * (n % 2 ^ k * 2 ^ j) = 2 ^ (k + j) ↔ 2 * (n % 2 ^ k) = 2 ^ k := by
    rw [double, Nat.pow_add, Nat.mul_left_inj (Nat.ne_of_gt positive)]
  simp only [quotient, below, remainder, less, tie]

theorem div_le_quotient (n k : Nat) : n / 2 ^ k ≤ quotient n k := by
  unfold quotient
  dsimp only
  split_ifs <;> omega

theorem quotient_le (n k : Nat) : quotient n k ≤ n / 2 ^ k + 1 := by
  unfold quotient
  dsimp only
  split_ifs <;> omega

theorem log2_mul_two_pow {n : Nat} (positive : n ≠ 0) (j : Nat) : (n * 2 ^ j).log2 = n.log2 + j := by
  induction j with
  | zero => simp
  | succ j ih =>
    have both : n * 2 ^ j ≠ 0 := Nat.mul_ne_zero positive (Nat.ne_of_gt (Nat.two_pow_pos j))
    rw [Nat.pow_succ, ← Nat.mul_assoc, Nat.mul_comm _ 2, Nat.log2_two_mul both, ih, Nat.add_assoc]

theorem log2_div_two_pow {n k : Nat} (positive : n ≠ 0) (fits : k ≤ n.log2) : (n / 2 ^ k).log2 + k = n.log2 := by
  obtain ⟨j, bits⟩ := Nat.exists_eq_add_of_le' fits
  have low := Nat.log2_self_le positive
  have high := @Nat.lt_log2_self n
  have some : 2 ^ j ≤ n / 2 ^ k := by
    rwa [Nat.le_div_iff_mul_le (Nat.two_pow_pos _), ← Nat.pow_add, ← bits]
  have size : (n / 2 ^ k).log2 = j := by
    refine (Nat.log2_eq_iff (Nat.ne_of_gt (Nat.lt_of_lt_of_le (Nat.two_pow_pos j) some))).mpr ⟨some, ?_⟩
    rwa [Nat.div_lt_iff_lt_mul (Nat.two_pow_pos _), ← Nat.pow_add, Nat.add_right_comm, ← bits]
  rw [size, bits]

theorem log2_add_digit {n digit : Nat} (positive : n ≠ 0) (isDigit : digit < 16) :
    (n * 16 + digit).log2 = n.log2 + 4 := by
  have low := Nat.log2_self_le positive
  have high := @Nat.lt_log2_self n
  refine (Nat.log2_eq_iff (by omega)).mpr ⟨?_, ?_⟩
  · rw [Nat.pow_add]
    omega
  · rw [Nat.add_right_comm, Nat.pow_add]
    omega

theorem excess_of_large {n : Nat} (large : 2 ^ 52 ≤ n) : n.log2 = 52 + excess n := by
  have := (Nat.le_log2 (by omega : n ≠ 0)).mpr large
  unfold excess
  omega

/-- The significant bits make up a number of exactly 53 bits. -/
theorem div_excess {n : Nat} (large : 2 ^ 52 ≤ n) : 2 ^ 52 ≤ n / 2 ^ excess n ∧ n / 2 ^ excess n < 2 ^ 53 := by
  have logs := excess_of_large large
  have low := Nat.log2_self_le (by omega : n ≠ 0)
  have high := @Nat.lt_log2_self n
  rw [logs] at low high
  constructor
  · rw [Nat.le_div_iff_mul_le (Nat.two_pow_pos _), ← Nat.pow_add]
    exact low
  · rw [Nat.div_lt_iff_lt_mul (Nat.two_pow_pos _), ← Nat.pow_add]
    rwa [Nat.add_right_comm] at high

theorem exact_of_lt {n : Nat} (small : n < 2 ^ 53) : Exact n := by
  have none : excess n = 0 := by
    by_cases zero : n = 0
    · subst zero
      rfl
    · have := (Nat.log2_lt zero).mpr small
      unfold excess
      omega
  rw [Exact, none]
  exact Nat.one_dvd n

theorem rounded_of_exact {n : Nat} (exact : Exact n) : rounded n = n := by
  rw [rounded, quotient_of_dvd exact, Nat.div_mul_cancel exact]

/-- Rounding may carry into one further bit, but not beyond. -/
theorem rounded_carries {n : Nat} (large : 2 ^ 52 ≤ n) :
    quotient n (excess n) < 2 ^ 53 ∧ (rounded n).log2 = n.log2 ∨
      quotient n (excess n) = 2 ^ 53 ∧ rounded n = 2 ^ (n.log2 + 1) := by
  obtain ⟨low, high⟩ := div_excess large
  have least := div_le_quotient n (excess n)
  have most := quotient_le n (excess n)
  rw [excess_of_large large, rounded]
  by_cases carry : quotient n (excess n) = 2 ^ 53
  · right
    rw [carry, ← Nat.pow_add, Nat.add_right_comm]
    exact ⟨rfl, rfl⟩
  · left
    have size : (quotient n (excess n)).log2 = 52 := (Nat.log2_eq_iff (by omega)).mpr ⟨by omega, by omega⟩
    rw [log2_mul_two_pow (by omega), size]
    exact ⟨by omega, rfl⟩

theorem log2_rounded (n : Nat) : (rounded n).log2 = n.log2 ∨ rounded n = 2 ^ (n.log2 + 1) := by
  by_cases large : 2 ^ 52 ≤ n
  · exact (rounded_carries large).imp And.right And.right
  · rw [rounded_of_exact (exact_of_lt (by omega))]
    exact .inl rfl

theorem log2_le_log2_rounded (n : Nat) : n.log2 ≤ (rounded n).log2 := by
  rcases log2_rounded n with same | carry
  · exact same.ge
  · rw [carry, Nat.log2_two_pow]
    exact Nat.le_succ _

theorem exact_two_pow_mul (n j : Nat) (fits : excess (n * 2 ^ j) ≤ j) : Exact (n * 2 ^ j) :=
  (Nat.pow_dvd_pow 2 fits).trans (Nat.dvd_mul_left _ _)

theorem exact_rounded (n : Nat) : Exact (rounded n) := by
  rcases log2_rounded n with same | carry
  · have fits : excess (rounded n) = excess n := by rw [excess, same, excess]
    rw [rounded] at fits ⊢
    exact exact_two_pow_mul _ _ fits.le
  · rw [carry, ← Nat.one_mul (2 ^ _)]
    refine exact_two_pow_mul _ _ ?_
    rw [Nat.one_mul, excess, Nat.log2_two_pow]
    omega

theorem rounded_eq_self_iff {n : Nat} : rounded n = n ↔ Exact n :=
  ⟨fun same => same ▸ exact_rounded n, rounded_of_exact⟩

theorem rounded_mul_two_pow (n j : Nat) : rounded (n * 2 ^ j) = rounded n * 2 ^ j := by
  by_cases zero : n = 0
  · simp [zero, rounded, quotient]
  have logs := log2_mul_two_pow zero j
  by_cases large : 2 ^ 52 ≤ n
  · have more : excess (n * 2 ^ j) = excess n + j := by
      have := excess_of_large large
      unfold excess at this ⊢
      omega
    rw [rounded, more, quotient_mul_two_pow, rounded, Nat.pow_add, Nat.mul_assoc]
  · have small : n.log2 < 52 := (Nat.log2_lt zero).mpr (by omega)
    rw [rounded_of_exact (exact_of_lt (by omega : n < 2 ^ 53))]
    refine rounded_of_exact (exact_two_pow_mul n j ?_)
    rw [excess, logs]
    omega

theorem Exact.mul_two_pow {n : Nat} (exact : Exact n) (j : Nat) : Exact (n * 2 ^ j) := by
  rw [← rounded_eq_self_iff, rounded_mul_two_pow, rounded_of_exact exact]

/-- A mantissa of 53 bits is even if rounding gives an even quotient, also if that is carried. -/
theorem even_mantissa {n mantissa : Nat} (large : 2 ^ 52 ≤ n) (even : quotient n (excess n) % 2 = 0)
    (same : mantissa * 2 ^ (rounded n).log2 = rounded n * 2 ^ 52) : mantissa % 2 = 0 := by
  rcases rounded_carries large with ⟨-, kept⟩ | ⟨-, power⟩
  · have scaled : mantissa * 2 ^ n.log2 = quotient n (excess n) * 2 ^ n.log2 := by
      rw [kept] at same
      rw [same, rounded, excess_of_large large, Nat.mul_assoc, ← Nat.pow_add, Nat.add_comm]
    have exact : mantissa = quotient n (excess n) := Nat.eq_of_mul_eq_mul_right (Nat.two_pow_pos _) scaled
    rw [exact, even]
  · rw [power, Nat.log2_two_pow, Nat.mul_comm] at same
    have exact : mantissa = 2 ^ 52 := Nat.eq_of_mul_eq_mul_left (Nat.two_pow_pos _) same
    omega

/-- A number is rounded to a power of two from half of the last significant bit below it. -/
theorem log2_rounded_lt_iff (n k : Nat) : (rounded n).log2 < 54 + k ↔ n < (2 ^ 54 - 1) * 2 ^ k := by
  have positive := Nat.two_pow_pos k
  have carried : (rounded n).log2 = n.log2 ∨ (rounded n).log2 = n.log2 + 1 := by
    refine (log2_rounded n).imp_right fun carry => ?_
    rw [carry, Nat.log2_two_pow]
  rcases Nat.lt_trichotomy n.log2 (53 + k) with less | same | more
  · have small : n < 2 ^ (53 + k) := Nat.lt_log2_self.trans_le (Nat.pow_le_pow_right (by decide) less)
    rw [Nat.pow_add] at small
    omega
  · have large : 2 ^ 52 ≤ n := (Nat.le_log2 (by rintro rfl; cases same.trans (Nat.add_comm _ _))).mp (by omega)
    have bits : excess n = k + 1 := by
      rw [excess, same]
      omega
    have carries : (rounded n).log2 < 54 + k ↔ quotient n (k + 1) < 2 ^ 53 := by
      rw [← bits]
      rcases rounded_carries large with ⟨small, kept⟩ | ⟨carry, power⟩
      · omega
      · rw [carry, power, Nat.log2_two_pow]
        omega
    obtain ⟨-, high⟩ := div_excess large
    have whole := Nat.div_add_mod n (2 ^ (k + 1))
    have rest : n % 2 ^ (k + 1) < 2 ^ (k + 1) := Nat.mod_lt _ (Nat.two_pow_pos _)
    rw [carries, quotient]
    rw [bits] at high
    rw [Nat.pow_succ] at high whole rest ⊢
    by_cases top : n / (2 ^ k * 2) = 2 ^ 53 - 1
    · rw [top] at whole ⊢
      split_ifs <;> omega
    · have below := Nat.mul_le_mul_left (2 ^ k * 2) (by omega : n / (2 ^ k * 2) + 1 ≤ 2 ^ 53 - 1)
      rw [Nat.mul_add] at below
      split_ifs <;> omega
  · have large : 2 ^ (54 + k) ≤ n := (Nat.le_log2 (by rintro rfl; cases more)).mp (by omega)
    rw [Nat.pow_add] at large
    omega

/-- A hexadecimal digit behind a number with excess bits is less than half of the last significant bit. -/
theorem rounded_add_digit {n digit : Nat} (exact : Exact n) (large : 2 ^ 53 ≤ n) (isDigit : digit < 16) :
    rounded (n * 16 + digit) = n * 16 := by
  have logs := excess_of_large (by omega : 2 ^ 52 ≤ n)
  have some : 1 ≤ excess n := by
    have := (Nat.le_log2 (by omega : n ≠ 0)).mpr large
    omega
  have more : excess (n * 16 + digit) = excess n + 4 := by
    rw [excess, log2_add_digit (by omega) isDigit]
    omega
  obtain ⟨mantissa, same⟩ := exact
  have whole : n * 16 = 2 ^ (excess n + 4) * mantissa := by
    rw [Nat.pow_add]
    conv_lhs => rw [same]
    ring
  have unit : 2 ^ 5 ≤ 2 ^ (excess n + 4) := Nat.pow_le_pow_right (by decide) (by omega)
  have lost : digit < 2 ^ (excess n + 4) := by omega
  rw [rounded, more, quotient, whole, Nat.mul_add_mod, Nat.mod_eq_of_lt lost,
    Nat.mul_add_div (Nat.two_pow_pos _), Nat.div_eq_of_lt lost, if_pos (by omega), Nat.add_zero, Nat.mul_comm]

end EcmaFold.Double
