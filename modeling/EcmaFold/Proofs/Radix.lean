import EcmaFold.Proofs.Double.DigitByDigit
import EcmaFold.Proofs.Lexer.Adjacent
import EcmaFold.Proofs.Numbers
import EcmaFold.Proofs.Rejection
import Mathlib.Data.List.TakeWhile

/-!
Natural numbers in decimal and in hexadecimal digits. Those that fit are the same integer. A larger one is the nearest
double in decimal digits, but in hexadecimal digits the last ones may be lost, which makes a difference if they decide
a tie.
-/

namespace EcmaFold

open Pattern (FindsLongest IsLongestPrefix oneOrMore)
open Double (IsNearest LosesTie kept nearest overflow)

namespace Number

theorem ofDecimal_eq_nearest {n : Nat} (large : 2 ^ 53 ≤ n) : ofDecimal n 0 = nearest n := by
  have some : n ≠ 0 := by omega
  unfold ofDecimal
  simp only
  rw [if_neg (by omega)]
  split
  · rename_i many
    have digits : ¬ (Nat.toDigits 10 n).length ≤ 310 := by omega
    rw [Nat.length_toDigits_le_iff (by decide) (by decide), Nat.not_lt, show 310 = 62 * 5 from rfl] at digits
    refine (Double.nearest_eq_infinity_of_log2 ((Nat.le_log2 some).mpr ?_)).symm
    calc 2 ^ 1024 ≤ 2 ^ (205 * 5) := Nat.pow_le_pow_right (by decide) (by decide)
      _ = (2 ^ 205) ^ 5 := pow_mul 2 205 5
      _ ≤ (10 ^ 62) ^ 5 := Nat.pow_le_pow_left (by norm_num) 5
      _ ≤ n := by rwa [← pow_mul]
  · exact Double.ofScientific_eq_nearest large

theorem decimalFloat_eq_nearest {raw : Bytes} (all : ∀ b ∈ raw, Bytes.isDigit b = true)
    (large : 2 ^ 53 ≤ Bytes.digitsValue 10 raw) : decimalFloat raw = nearest (Bytes.digitsValue 10 raw) := by
  have noMarker : raw.takeWhile (fun b => !(b = 0x65 || b = 0x45)) = raw := by
    refine List.takeWhile_eq_self_iff.mpr fun b member => ?_
    obtain ⟨-, -, noMarker, noMarker'⟩ := byte_of_digit (all b member)
    simp [noMarker, noMarker']
  have noPoint : raw.takeWhile (· ≠ 0x2E) = raw := by
    refine List.takeWhile_eq_self_iff.mpr fun b member => ?_
    simpa using (byte_of_digit (all b member)).2.1
  have exact := ofDecimal_eq_nearest large
  simp only [decimalFloat, noMarker, noPoint, List.drop_length, List.drop_nil, List.append_nil, exponentValue,
    List.length_nil, Nat.cast_zero, sub_zero, exact]

end Number

namespace Scanner

/-- A spelling is read as a whole. -/
theorem numberBy?_spelling {find? : Bytes → Option Nat} (finds : FindsLongest Number.pattern find?) {raw : Bytes}
    (matched : raw ∈ Number.pattern.matches') :
    (ofSource raw).numberBy? find? = some (⟨raw, Number.valueOf raw⟩, ⟨raw, raw.length⟩) := by
  have visible := Number.piece?_eq_none (Number.mem_pattern.mp matched) []
  rw [List.append_nil] at visible
  have stays : (ofSource raw).skip = ofSource raw := skip_eq_self visible
  have longest : IsLongestPrefix Number.pattern.matches' raw raw :=
    ⟨matched, List.prefix_refl raw, fun _ _ begins => begins.length_le⟩
  have read : Number.readBy? find? raw = some ⟨raw, Number.valueOf raw⟩ :=
    (Number.readBy?_eq_some_iff finds raw _).mpr ⟨longest, by rw [List.drop_length]; rfl, rfl⟩
  rw [numberBy?_eq, stays, show (ofSource raw).rest = raw from rfl, read]
  simp [advance, moveTo, ofSource]

/-- A natural number in decimal and in hexadecimal digits is the same integer if it fits. Otherwise the one is the
nearest double, and the other the double nearest to the number without its lost digits; they are the same unless these
digits decide a tie. -/
theorem numberBy?_natural {find? : Bytes → Option Nat} (finds : FindsLongest Number.pattern find?) {n : Nat}
    {decimal hexadecimal : Bytes} (digits : decimal ∈ (oneOrMore Number.digit).matches')
    (decimalValue : Bytes.digitsValue 10 decimal = n) (marked : hexadecimal ∈ Number.hexadecimal.matches')
    (hexadecimalValue : Bytes.digitsValue 16 (hexadecimal.drop 2) = n) :
    ∃ a b, (ofSource decimal).numberBy? find? = some (⟨decimal, a⟩, ⟨decimal, decimal.length⟩) ∧
      (ofSource hexadecimal).numberBy? find? = some (⟨hexadecimal, b⟩, ⟨hexadecimal, hexadecimal.length⟩) ∧
      (n < 2 ^ 63 → a = .int (Int64.ofNat n) ∧ b = .int (Int64.ofNat n)) ∧
      (2 ^ 63 ≤ n → ∃ x y, a = .float x ∧ b = .float y ∧ IsNearest n x ∧ IsNearest (kept n) y ∧
        (x = y ↔ (n < overflow → ¬ LosesTie n))) := by
  obtain ⟨nonempty, all⟩ := Number.mem_oneOrMore_digit.mp digits
  have decimalSpelling : decimal ∈ Number.pattern.matches' := by
    rw [Number.mem_pattern, ← List.append_nil decimal]
    exact .decimal (.whole nonempty all) .none
  refine ⟨_, _, numberBy?_spelling finds decimalSpelling, numberBy?_spelling finds (.inl marked), ?_, ?_⟩
  · intro fits
    have fits' : n < Number.intLimit := fits
    rw [Number.valueOf_of_digits digits, Number.valueOf_of_hexadecimal marked, decimalValue, hexadecimalValue,
      if_pos fits', if_pos fits']
    exact ⟨rfl, rfl⟩
  · intro large
    have large' : ¬ n < Number.intLimit := Nat.not_lt.mpr large
    rw [Number.valueOf_of_digits digits, Number.valueOf_of_hexadecimal marked, decimalValue, hexadecimalValue,
      if_neg large', if_neg large']
    refine ⟨nearest n, nearest (kept n), ?_, ?_, Double.isNearest_nearest n, Double.isNearest_nearest _,
      Double.nearest_eq_nearest_kept_iff (by omega)⟩
    · rw [Number.decimalFloat_eq_nearest all (by omega), decimalValue]
    · rw [Double.hexFloat_eq_nearest, hexadecimalValue]

/-- The last two digits are lost, but they are zeros. The tie is between an odd mantissa and a carry into one more bit,
which is even. -/
theorem numberBy?_natural_carry :
    FindsLongest Number.pattern Number.measure? ∧
      utf8 "18446744073709550592" ∈ (oneOrMore Number.digit).matches' ∧
      utf8 "0X0FFFFFFFFFFFFFc00" ∈ Number.hexadecimal.matches' ∧
      ∃ x, (ofSource (utf8 "18446744073709550592")).numberBy? Number.measure? =
          some (⟨utf8 "18446744073709550592", .float x⟩, ⟨utf8 "18446744073709550592", 20⟩) ∧
        (ofSource (utf8 "0X0FFFFFFFFFFFFFc00")).numberBy? Number.measure? =
          some (⟨utf8 "0X0FFFFFFFFFFFFFc00", .float x⟩, ⟨utf8 "0X0FFFFFFFFFFFFFc00", 19⟩) ∧
        IsNearest 18446744073709550592 x := by
  have digits : utf8 "18446744073709550592" ∈ (oneOrMore Number.digit).matches' :=
    Number.mem_oneOrMore_digit.mpr ⟨by decide, List.all_eq_true.mp rfl⟩
  have marked : utf8 "0X0FFFFFFFFFFFFFc00" ∈ Number.hexadecimal.matches' :=
    Number.mem_hexadecimal.mpr ⟨0x58, utf8 "0FFFFFFFFFFFFFc00", .inr rfl, by decide, List.all_eq_true.mp rfl, rfl⟩
  obtain ⟨_, _, decimal, hexadecimal, -, floats⟩ :=
    numberBy?_natural Number.measure?_findsLongest digits rfl marked rfl
  obtain ⟨x, y, rfl, rfl, near, -, same⟩ := floats (by decide)
  have tie : ¬ LosesTie 18446744073709550592 := by decide
  obtain rfl := same.mpr fun _ => tie
  exact ⟨Number.measure?_findsLongest, digits, marked, x, decimal, hexadecimal, near⟩

/-- The last digit is lost, but it decides a tie: the value of a natural number depends on the digits that it is written
in. -/
theorem number?_lost_tie :
    Bytes.digitsValue 10 (utf8 "18446744073709553665") = Bytes.digitsValue 16 (utf8 "10000000000000801") ∧
      (ofSource (utf8 "18446744073709553665")).number? = some
        (⟨utf8 "18446744073709553665", .float (Float.ofBits 0x43F0000000000001)⟩,
          ⟨utf8 "18446744073709553665", 20⟩) ∧
      (ofSource (utf8 "0x10000000000000801")).number? = some
        (⟨utf8 "0x10000000000000801", .float (Float.ofBits 0x43F0000000000000)⟩,
          ⟨utf8 "0x10000000000000801", 19⟩) ∧
      Float.ofBits 0x43F0000000000001 ≠ Float.ofBits 0x43F0000000000000 := by
  have decimal : Number.decimalFloat (utf8 "18446744073709553665") = Float.ofBits 0x43F0000000000001 := by
    decide
  have hexadecimal : Number.hexFloat (utf8 "10000000000000801") = Float.ofBits 0x43F0000000000000 := by
    have value : Bytes.digitsValue 16 (utf8 "10000000000000801") = 18446744073709553665 := rfl
    rw [Double.hexFloat_eq_nearest, value]
    decide
  refine ⟨rfl, ?_, ?_, by decide⟩
  · rw [← decimal]
    rfl
  · rw [← hexadecimal]
    rfl

end Scanner

end EcmaFold
