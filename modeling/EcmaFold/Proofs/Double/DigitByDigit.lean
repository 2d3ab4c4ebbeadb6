import EcmaFold.Lexer.Number
import EcmaFold.Proofs.Double.CorrectRounding
import EcmaFold.Proofs.Lexer.Spelling

/-!
A hexadecimal number that is summed up in doubles digit by digit. Once the sum has more than 53 bits, the digits that
follow only shift it. So the result is the double nearest to the number with zeros for these digits, and that is the
double nearest to the number itself unless a tie has been decided without them.
-/

namespace EcmaFold.Double

/-- How many of the last hexadecimal digits of a number are lost. -/
def lost (n : Nat) : Nat := (n.log2 - 53) / 4

/-- The number with zeros for the digits that are lost. -/
def kept (n : Nat) : Nat := n / 16 ^ lost n * 16 ^ lost n

/-- The digits that are kept lie half way above an even mantissa, and what is lost is more than nothing. -/
def LosesTie (n : Nat) : Prop :=
  let front := n / 16 ^ lost n
  2 * (front % 2 ^ excess front) = 2 ^ excess front ∧ front / 2 ^ excess front % 2 = 0 ∧ n % 16 ^ lost n ≠ 0

instance (n : Nat) : Decidable (LosesTie n) := inferInstanceAs (Decidable (_ ∧ _ ∧ _))

theorem sixteen_pow (j : Nat) : 16 ^ j = 2 ^ (4 * j) := (Nat.pow_mul 2 4 j).symm

theorem kept_of_lt {n : Nat} (small : n < 2 ^ 57) : kept n = n := by
  have none : lost n = 0 := by
    by_cases zero : n = 0
    · subst zero
      rfl
    · have := (Nat.log2_lt zero).mpr small
      unfold lost
      omega
  rw [kept, none, Nat.pow_zero, Nat.div_one, Nat.mul_one]

/-- The digits that are kept make up more than 53 bits. -/
theorem lost_le {n : Nat} (large : 2 ^ 53 ≤ n) : 53 + 4 * lost n ≤ n.log2 := by
  have bits := (Nat.le_log2 (by omega : n ≠ 0)).mpr large
  unfold lost
  omega

theorem log2_front {n : Nat} (large : 2 ^ 53 ≤ n) : (n / 16 ^ lost n).log2 + 4 * lost n = n.log2 := by
  have room := lost_le large
  rw [sixteen_pow]
  exact log2_div_two_pow (by omega) (by omega)

theorem le_front {n : Nat} (large : 2 ^ 53 ≤ n) : 2 ^ 53 ≤ n / 16 ^ lost n := by
  have room := lost_le large
  have bits := log2_front large
  refine (Nat.le_log2 fun none => ?_).mp (by omega)
  rw [none, Nat.log2_zero] at bits
  omega

theorem log2_kept {n : Nat} (large : 2 ^ 53 ≤ n) : (kept n).log2 = n.log2 := by
  have some := le_front large
  rw [← log2_front large, kept]
  generalize n / 16 ^ lost n = front at some ⊢
  rw [sixteen_pow, log2_mul_two_pow (by omega)]

theorem rounded_kept (n : Nat) : rounded (kept n) = rounded (n / 16 ^ lost n) * 16 ^ lost n := by
  rw [kept, sixteen_pow, rounded_mul_two_pow]

theorem le_rounded_kept {n : Nat} (large : 2 ^ 53 ≤ n) : 2 ^ 53 ≤ rounded (kept n) := by
  have bits := (Nat.le_log2 (by omega : n ≠ 0)).mpr large
  have kept := log2_kept large
  have more := log2_le_log2_rounded (EcmaFold.Double.kept n)
  refine (Nat.le_log2 fun none => ?_).mp (by omega)
  rw [none, Nat.log2_zero] at more
  omega

/-- One more digit behind a large number is one more digit that is lost. -/
theorem kept_add_digit {n digit : Nat} (large : 2 ^ 53 ≤ n) (isDigit : digit < 16) :
    kept (n * 16 + digit) = kept n * 16 := by
  have bits := (Nat.le_log2 (by omega : n ≠ 0)).mpr large
  have more : lost (n * 16 + digit) = lost n + 1 := by
    have := log2_add_digit (by omega : n ≠ 0) isDigit
    unfold lost
    omega
  have front : (n * 16 + digit) / 16 ^ (lost n + 1) = n / 16 ^ lost n := by
    have first : (n * 16 + digit) / 16 = n := by omega
    rw [Nat.pow_succ, Nat.mul_comm (16 ^ lost n), ← Nat.div_div_eq_div_mul, first]
  rw [kept, more, front, Nat.pow_succ, ← Nat.mul_assoc, kept]

/-- One more digit: what the sum is rounded to is what the kept digits are rounded to. -/
theorem rounded_add_kept (n : Nat) {digit : Nat} (isDigit : digit < 16) :
    rounded (rounded (kept n) * 16 + digit) = rounded (kept (n * 16 + digit)) := by
  by_cases large : 2 ^ 53 ≤ n
  · rw [rounded_add_digit (exact_rounded _) (le_rounded_kept large) isDigit, kept_add_digit large isDigit]
    exact (rounded_mul_two_pow (kept n) 4).symm
  · rw [kept_of_lt (by omega : n < 2 ^ 57), rounded_of_exact (exact_of_lt (by omega) : Exact n),
      kept_of_lt (by omega)]

theorem quotient_of_lt {n k : Nat} (below : 2 * (n % 2 ^ k) < 2 ^ k) : quotient n k = n / 2 ^ k := if_pos below

theorem quotient_of_eq {n k : Nat} (tie : 2 * (n % 2 ^ k) = 2 ^ k) : quotient n k = n / 2 ^ k + n / 2 ^ k % 2 :=
  (if_neg (by omega)).trans (if_pos tie)

theorem quotient_of_gt {n k : Nat} (above : 2 ^ k < 2 * (n % 2 ^ k)) : quotient n k = n / 2 ^ k + 1 :=
  (if_neg (by omega)).trans (if_neg (by omega))

/-- Without the lost digits, rounding goes the same way unless they decide a tie. -/
theorem quotient_front {front back k j : Nat} (small : back < 2 ^ j) :
    quotient front (k + 1) = quotient (front * 2 ^ j + back) (k + 1 + j) ↔
      ¬ (2 * (front % 2 ^ (k + 1)) = 2 ^ (k + 1) ∧ front / 2 ^ (k + 1) % 2 = 0 ∧ back ≠ 0) := by
  have whole : (front * 2 ^ j + back) / 2 ^ (k + 1 + j) = front / 2 ^ (k + 1) := by
    rw [Nat.pow_add, Nat.mul_comm (2 ^ (k + 1)), ← Nat.div_div_eq_div_mul, Nat.mul_comm front,
      Nat.mul_add_div (Nat.two_pow_pos j), Nat.div_eq_of_lt small, Nat.add_zero]
  have rest : (front * 2 ^ j + back) % 2 ^ (k + 1 + j) = front % 2 ^ (k + 1) * 2 ^ j + back := by
    rw [Nat.pow_add, Nat.mul_comm (2 ^ (k + 1)), Nat.mod_mul, Nat.mul_comm front, Nat.mul_add_mod,
      Nat.mod_eq_of_lt small, Nat.mul_add_div (Nat.two_pow_pos j), Nat.div_eq_of_lt small, Nat.add_zero]
    ring
  have unit : 2 ^ (k + 1 + j) = 2 * (2 ^ k * 2 ^ j) := by ring
  have half : 2 ^ (k + 1) = 2 * 2 ^ k := Nat.pow_succ'
  rcases Nat.lt_trichotomy (front % 2 ^ (k + 1)) (2 ^ k) with below | tie | above
  · have gap := Nat.mul_le_mul_right (2 ^ j) (Nat.succ_le_of_lt below)
    rw [Nat.succ_mul] at gap
    rw [quotient_of_lt (by omega), quotient_of_lt (by rw [rest]; omega), whole]
    exact ⟨fun _ lost => by omega, fun _ => rfl⟩
  · rw [quotient_of_eq (by omega)]
    by_cases none : back = 0
    · rw [quotient_of_eq (by rw [rest, tie]; omega), whole]
      exact ⟨fun _ lost => lost.2.2 none, fun _ => rfl⟩
    · rw [quotient_of_gt (by rw [rest, tie]; omega), whole]
      omega
  · have gap := Nat.mul_le_mul_right (2 ^ j) (Nat.succ_le_of_lt above)
    rw [Nat.succ_mul] at gap
    rw [quotient_of_gt (by omega), quotient_of_gt (by rw [rest]; omega), whole]
    exact ⟨fun _ lost => by omega, fun _ => rfl⟩

theorem rounded_kept_eq_iff {n : Nat} (large : 2 ^ 53 ≤ n) : rounded (kept n) = rounded n ↔ ¬ LosesTie n := by
  have bits := log2_front large
  have some := (Nat.le_log2 (by have := le_front large; omega)).mpr (le_front large)
  have more : excess n = excess (n / 16 ^ lost n) + 4 * lost n := by
    unfold excess
    omega
  obtain ⟨k, unit⟩ : ∃ k, excess (n / 16 ^ lost n) = k + 1 := Nat.exists_eq_succ_of_ne_zero (by unfold excess; omega)
  have front := rounded_kept n
  have split : n / 16 ^ lost n * 16 ^ lost n + n % 16 ^ lost n = n := Nat.div_add_mod' n _
  have below : n % 16 ^ lost n < 16 ^ lost n := Nat.mod_lt _ (Nat.pow_pos (by decide))
  unfold LosesTie
  dsimp only
  rw [front, rounded, rounded, more]
  generalize n / 16 ^ lost n = front at unit split ⊢
  generalize n % 16 ^ lost n = back at split below ⊢
  rw [unit, sixteen_pow] at *
  rw [← quotient_front below, split, Nat.mul_assoc, ← Nat.pow_add]
  exact Nat.mul_left_inj (Nat.ne_of_gt (Nat.two_pow_pos _))

theorem two_pow_dvd_mul {j k : Nat} (less : j ≤ k) (c : Nat) : 2 ^ j ∣ c * 2 ^ k :=
  Nat.dvd_mul_left_of_dvd (Nat.pow_dvd_pow 2 less) c

/-- What is beyond the range is so without the lost digits. -/
theorem overflow_le_kept {n : Nat} (large : overflow ≤ n) : overflow ≤ kept n := by
  have carried := log2_rounded n
  have beyond : 1024 ≤ (rounded n).log2 := Nat.not_lt.mp ((lt_overflow_iff n).not.mp (Nat.not_lt.mpr large))
  by_cases last : n.log2 = 1023
  · -- So few digits are lost that the limit itself keeps all of its own.
    have few : 4 * lost n ≤ 970 := by
      rw [lost, last]
      decide
    have divides : 16 ^ lost n ∣ overflow := by
      rw [sixteen_pow]
      exact two_pow_dvd_mul few (2 ^ 54 - 1)
    rw [kept, ← Nat.div_mul_cancel divides]
    exact Nat.mul_le_mul_right _ (Nat.div_le_div_right large)
  · have bits : 1024 ≤ n.log2 := by
      rcases carried with same | carry
      · omega
      · rw [carry, Nat.log2_two_pow] at beyond
        omega
    have many : 2 ^ 53 ≤ n := by
      refine (Nat.le_log2 ?_).mp (by omega)
      rintro rfl
      cases bits
    refine Nat.not_lt.mp ((lt_overflow_iff _).not.mpr (Nat.not_lt.mpr ?_))
    exact (log2_kept many ▸ bits : 1024 ≤ (kept n).log2).trans (log2_le_log2_rounded _)

/-- The lost digits make a difference exactly if they decide a tie within the range. -/
theorem nearest_eq_nearest_kept_iff {n : Nat} (large : 2 ^ 53 ≤ n) :
    nearest n = nearest (kept n) ↔ (n < overflow → ¬ LosesTie n) := by
  have less : kept n ≤ n := Nat.div_mul_le_self n _
  by_cases small : n < overflow
  · rw [nearest_inj small (by omega), eq_comm, rounded_kept_eq_iff large]
    exact ⟨fun no _ => no, fun goes => goes small⟩
  · have beyond : overflow ≤ n := Nat.not_lt.mp small
    rw [(isNearest_nearest n).infinite beyond, (isNearest_nearest _).infinite (overflow_le_kept beyond)]
    exact ⟨fun _ within => absurd within small, fun _ => rfl⟩

/-! The sum in doubles -/

theorem nearest_eq_infinity_of_log2 {n : Nat} (large : 1024 ≤ n.log2) : nearest n = infinity :=
  nearest_eq_infinity (large.trans (log2_le_log2_rounded n))

theorem nearest_mul_sixteen {n : Nat} (exact : Exact n) : nearest n * 16 = nearest (n * 16) := by
  have sixteen : (16 : Float) = nearest 16 := ofNat_eq_nearest (by decide)
  by_cases small : n.log2 < 1024
  · rw [sixteen]
    exact nearest_mul exact (exact_of_lt (by decide)) small (by decide)
  · have positive : n ≠ 0 := by
      rintro rfl
      exact small (by decide)
    have more : (n * 16).log2 = n.log2 + 4 := log2_mul_two_pow positive 4
    rw [nearest_eq_infinity_of_log2 (by omega), infinity_mul, nearest_eq_infinity_of_log2 (by omega)]

theorem nearest_add_digit {n digit : Nat} (exact : Exact n) (isDigit : digit < 16) :
    nearest n + Float.ofNat digit = nearest (n + digit) := by
  rw [ofNat_eq_nearest (by omega)]
  by_cases small : n.log2 < 1024
  · exact nearest_add exact (exact_of_lt (by omega)) small (Nat.lt_of_le_of_lt (Nat.log2_le_self _) (by omega))
  · have positive : n ≠ 0 := by
      rintro rfl
      exact small (by decide)
    have more : n.log2 ≤ (n + digit).log2 :=
      (Nat.le_log2 (by omega)).mpr ((Nat.log2_self_le positive).trans (Nat.le_add_right _ _))
    rw [nearest_eq_infinity_of_log2 (by omega), infinity_add isDigit, nearest_eq_infinity_of_log2 (by omega)]

theorem hexValue_lt (b : UInt8) : (Bytes.hexValue? b).getD 0 < 16 := by
  unfold Bytes.hexValue?
  simp only [UInt8.le_iff_toNat_le]
  split_ifs <;> simp at * <;> omega

/-- One more digit in doubles. -/
theorem nearest_kept_add_digit (n : Nat) {digit : Nat} (isDigit : digit < 16) :
    nearest (kept n) * 16 + Float.ofNat digit = nearest (kept (n * 16 + digit)) := by
  have exact := exact_rounded (kept n)
  have shifted : Exact (rounded (kept n) * 16) := exact.mul_two_pow 4
  calc nearest (kept n) * 16 + Float.ofNat digit
      = nearest (rounded (kept n) * 16) + Float.ofNat digit := by rw [← nearest_rounded, nearest_mul_sixteen exact]
    _ = nearest (rounded (rounded (kept n) * 16 + digit)) := by rw [nearest_add_digit shifted isDigit, nearest_rounded]
    _ = nearest (kept (n * 16 + digit)) := by rw [rounded_add_kept n isDigit, nearest_rounded]

/-- The sum of the digits is the double nearest to the number that they spell without the lost ones. -/
theorem hexFloat_eq_nearest (digits : Bytes) :
    Number.hexFloat digits = nearest (kept (Bytes.digitsValue 16 digits)) := by
  suffices run : ∀ n, digits.foldl
      (fun value digit => value * 16 + Float.ofNat ((Bytes.hexValue? digit).getD 0)) (nearest (kept n)) =
        nearest (kept (digits.foldl (fun value digit => value * 16 + (Bytes.hexValue? digit).getD 0) n)) from run 0
  induction digits with
  | nil => exact fun _ => rfl
  | cons digit digits ih =>
    intro n
    rw [List.foldl_cons, List.foldl_cons, nearest_kept_add_digit n (hexValue_lt digit), ih]

end EcmaFold.Double
