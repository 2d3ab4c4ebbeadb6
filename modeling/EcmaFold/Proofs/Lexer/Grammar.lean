import EcmaFold.Proofs.Lexer.Numeral
import Mathlib.Computability.RegularExpressions

/-!
The spellings of numbers as a regular expression. A matcher that finds the longest prefix in its language finds what
`Number.width` measures, and it makes no difference that it is only shown the window.
-/

namespace EcmaFold

open RegularExpression (char star matches'_add matches'_mul matches'_star matches'_epsilon)

/-! Regular expressions over bytes -/

namespace Pattern

/-- One of some bytes. -/
def oneOf : Bytes → RegularExpression UInt8
  | [] => 0
  | b :: bytes => char b + oneOf bytes

def oneOrMore (pattern : RegularExpression UInt8) : RegularExpression UInt8 := pattern * star pattern

def zeroOrOne (pattern : RegularExpression UInt8) : RegularExpression UInt8 := pattern + 1

theorem mem_oneOf {bytes text : Bytes} : text ∈ (oneOf bytes).matches' ↔ ∃ b ∈ bytes, text = [b] := by
  induction bytes with
  | nil => exact ⟨False.elim, fun ⟨_, member, _⟩ => absurd member List.not_mem_nil⟩
  | cons b bytes ih =>
    rw [oneOf, matches'_add, Language.mem_add, ih, List.exists_mem_cons_iff]
    rfl

theorem mem_star_oneOf {bytes text : Bytes} : text ∈ (star (oneOf bytes)).matches' ↔ ∀ b ∈ text, b ∈ bytes := by
  rw [matches'_star, Language.mem_kstar]
  constructor
  · rintro ⟨parts, rfl, matched⟩ b member
    obtain ⟨part, inParts, inPart⟩ := List.mem_flatten.mp member
    obtain ⟨b', inBytes, rfl⟩ := mem_oneOf.mp (matched part inParts)
    rwa [List.mem_singleton.mp inPart]
  · intro all
    refine ⟨text.map ([·]), (List.flatMap_singleton' text).symm, fun part member => ?_⟩
    obtain ⟨b, inText, rfl⟩ := List.mem_map.mp member
    exact mem_oneOf.mpr ⟨b, all b inText, rfl⟩

theorem mem_oneOrMore_oneOf {bytes text : Bytes} :
    text ∈ (oneOrMore (oneOf bytes)).matches' ↔ text ≠ [] ∧ ∀ b ∈ text, b ∈ bytes := by
  rw [oneOrMore, matches'_mul, Language.mem_mul]
  constructor
  · rintro ⟨first, isFirst, others, areOthers, rfl⟩
    obtain ⟨b, member, rfl⟩ := mem_oneOf.mp isFirst
    exact ⟨by simp, List.forall_mem_cons.mpr ⟨member, mem_star_oneOf.mp areOthers⟩⟩
  · rintro ⟨nonempty, all⟩
    obtain _ | ⟨b, others⟩ := text
    · exact absurd rfl nonempty
    · obtain ⟨member, areOthers⟩ := List.forall_mem_cons.mp all
      exact ⟨[b], mem_oneOf.mpr ⟨b, member, rfl⟩, others, mem_star_oneOf.mpr areOthers, rfl⟩

theorem mem_zeroOrOne {pattern : RegularExpression UInt8} {text : Bytes} :
    text ∈ (zeroOrOne pattern).matches' ↔ text ∈ pattern.matches' ∨ text = [] := by
  rw [zeroOrOne, matches'_add, Language.mem_add]
  rfl

/-- The longest prefix of a text in a language. -/
structure IsLongestPrefix (language : Language UInt8) (text found : Bytes) : Prop where
  mem : found ∈ language
  begins : found <+: text
  longest : ∀ other ∈ language, other <+: text → other.length ≤ found.length

/-- A matcher that gives the length of the longest prefix of a text that a pattern matches. -/
def FindsLongest (pattern : RegularExpression UInt8) (find? : Bytes → Option Nat) : Prop :=
  ∀ text width, find? text = some width ↔ ∃ found, IsLongestPrefix pattern.matches' text found ∧ found.length = width

/-- A matcher that finds nothing but prefixes of a text that a pattern matches. -/
def FindsMatches (pattern : RegularExpression UInt8) (find? : Bytes → Option Nat) : Prop :=
  ∀ text width, find? text = some width → width ≤ text.length ∧ text.take width ∈ pattern.matches'

end Pattern

/-! The spellings of numbers -/

namespace Number

open Bytes (isDigit isHexDigit)
open Pattern

def digit : RegularExpression UInt8 := oneOf (utf8 "0123456789")

def hexDigit : RegularExpression UInt8 := oneOf (utf8 "0123456789ABCDEFabcdef")

def hexadecimal : RegularExpression UInt8 := char 0x30 * oneOf [0x78, 0x58] * oneOrMore hexDigit

def mantissa : RegularExpression UInt8 :=
  oneOrMore digit * zeroOrOne (char 0x2E * star digit) + char 0x2E * oneOrMore digit

def exponent : RegularExpression UInt8 :=
  zeroOrOne (oneOf [0x65, 0x45] * zeroOrOne (oneOf [0x2B, 0x2D]) * oneOrMore digit)

/-- The spellings of numbers, `0[xX][0-9a-fA-F]+|([0-9]+(\.[0-9]*)?|\.[0-9]+)([eE][+-]?[0-9]+)?`. -/
def pattern : RegularExpression UInt8 := hexadecimal + mantissa * exponent

theorem mem_digits (b : UInt8) : b ∈ utf8 "0123456789" ↔ isDigit b = true := by
  rw [show utf8 "0123456789" = [0x30, 0x31, 0x32, 0x33, 0x34, 0x35, 0x36, 0x37, 0x38, 0x39] from rfl]
  simp [isDigit, UInt8.le_iff_toNat_le, ← UInt8.toNat_inj]
  omega

theorem mem_hexDigits (b : UInt8) : b ∈ utf8 "0123456789ABCDEFabcdef" ↔ isHexDigit b = true := by
  rw [show utf8 "0123456789ABCDEFabcdef" = [0x30, 0x31, 0x32, 0x33, 0x34, 0x35, 0x36, 0x37, 0x38, 0x39, 0x41, 0x42,
    0x43, 0x44, 0x45, 0x46, 0x61, 0x62, 0x63, 0x64, 0x65, 0x66] from rfl]
  simp [isHexDigit, Bytes.hexValue?, UInt8.le_iff_toNat_le, ← UInt8.toNat_inj]
  split_ifs <;> simp <;> omega

theorem mem_star_digit {text : Bytes} : text ∈ (star digit).matches' ↔ ∀ b ∈ text, isDigit b = true := by
  simp only [digit, mem_star_oneOf, mem_digits]

theorem mem_oneOrMore_digit {text : Bytes} :
    text ∈ (oneOrMore digit).matches' ↔ text ≠ [] ∧ ∀ b ∈ text, isDigit b = true := by
  simp only [digit, mem_oneOrMore_oneOf, mem_digits]

theorem mem_hexadecimal {text : Bytes} : text ∈ hexadecimal.matches' ↔ ∃ marker digits,
    (marker = 0x78 ∨ marker = 0x58) ∧ digits ≠ [] ∧ (∀ b ∈ digits, isHexDigit b = true) ∧
      text = 0x30 :: marker :: digits := by
  constructor
  · rintro ⟨_, ⟨_, rfl, _, isMarker, rfl⟩, digits, areDigits, rfl⟩
    obtain ⟨marker, marks, rfl⟩ := mem_oneOf.mp isMarker
    obtain ⟨nonempty, all⟩ := mem_oneOrMore_oneOf.mp areDigits
    exact ⟨marker, digits, by simpa using marks, nonempty, fun b member => (mem_hexDigits b).mp (all b member), rfl⟩
  · rintro ⟨marker, digits, marks, nonempty, all, rfl⟩
    refine ⟨[0x30, marker], ⟨[0x30], rfl, [marker], ?_, rfl⟩, digits, ?_, rfl⟩
    · exact mem_oneOf.mpr ⟨marker, by simpa using marks, rfl⟩
    · exact mem_oneOrMore_oneOf.mpr ⟨nonempty, fun b member => (mem_hexDigits b).mpr (all b member)⟩

theorem mem_mantissa {text : Bytes} : text ∈ mantissa.matches' ↔ IsMantissa text := by
  constructor
  · rintro (⟨whole, isWhole, _, isBehind, rfl⟩ | ⟨_, rfl, fraction, isFraction, rfl⟩)
    · obtain ⟨nonempty, allWhole⟩ := mem_oneOrMore_digit.mp isWhole
      rcases mem_zeroOrOne.mp isBehind with ⟨_, rfl, fraction, isFraction, rfl⟩ | rfl
      · exact .point (.inl nonempty) allWhole (mem_star_digit.mp isFraction)
      · simpa using .whole nonempty allWhole
    · obtain ⟨nonempty, allFraction⟩ := mem_oneOrMore_digit.mp isFraction
      exact @IsMantissa.point [] fraction (.inr nonempty) (List.forall_mem_nil _) allFraction
  · intro isMantissa
    cases isMantissa with
    | whole nonempty all =>
      exact .inl ⟨text, mem_oneOrMore_digit.mpr ⟨nonempty, all⟩, [], mem_zeroOrOne.mpr (.inr rfl), List.append_nil _⟩
    | @point whole fraction nonempty allWhole allFraction =>
      by_cases empty : whole = []
      · subst empty
        have some : fraction ≠ [] := nonempty.resolve_left (not_not_intro rfl)
        exact .inr ⟨[0x2E], rfl, fraction, mem_oneOrMore_digit.mpr ⟨some, allFraction⟩, rfl⟩
      · have behind : 0x2E :: fraction ∈ (char 0x2E * star digit).matches' :=
          ⟨[0x2E], rfl, fraction, mem_star_digit.mpr allFraction, rfl⟩
        exact .inl ⟨whole, mem_oneOrMore_digit.mpr ⟨empty, allWhole⟩, _, mem_zeroOrOne.mpr (.inl behind), rfl⟩

theorem mem_exponent {text : Bytes} : text ∈ exponent.matches' ↔ IsExponent text := by
  constructor
  · intro matched
    rcases mem_zeroOrOne.mp matched with ⟨_, ⟨_, isMarker, sign, isSign, rfl⟩, digits, areDigits, rfl⟩ | rfl
    · obtain ⟨marker, marks, rfl⟩ := mem_oneOf.mp isMarker
      obtain ⟨nonempty, all⟩ := mem_oneOrMore_digit.mp areDigits
      have signs : sign = [] ∨ sign = [0x2B] ∨ sign = [0x2D] := by
        rcases mem_zeroOrOne.mp isSign with single | rfl
        · obtain ⟨b, signs, rfl⟩ := mem_oneOf.mp single
          exact .inr (by simpa using signs)
        · exact .inl rfl
      exact .some (by simpa using marks) signs nonempty all
    · exact .none
  · intro isExponent
    cases isExponent with
    | none => exact mem_zeroOrOne.mpr (.inr rfl)
    | @some marker sign digits marks signs nonempty all =>
      refine mem_zeroOrOne.mpr (.inl ⟨marker :: sign, ⟨[marker], ?_, sign, ?_, rfl⟩, digits, ?_, rfl⟩)
      · exact mem_oneOf.mpr ⟨marker, by simpa using marks, rfl⟩
      · refine mem_zeroOrOne.mpr (signs.symm.imp_left fun signs => mem_oneOf.mpr ?_)
        simpa using signs
      · exact mem_oneOrMore_digit.mpr ⟨nonempty, all⟩

theorem mem_pattern {text : Bytes} : text ∈ pattern.matches' ↔ IsSpelling text := by
  constructor
  · rintro (isHexadecimal | ⟨mantissa, isMantissa, exponent, isExponent, rfl⟩)
    · obtain ⟨marker, digits, marks, nonempty, all, rfl⟩ := mem_hexadecimal.mp isHexadecimal
      exact .hex marks nonempty all
    · exact .decimal (mem_mantissa.mp isMantissa) (mem_exponent.mp isExponent)
  · intro isSpelling
    cases isSpelling with
    | hex marks nonempty all => exact .inl (mem_hexadecimal.mpr ⟨_, _, marks, nonempty, all, rfl⟩)
    | decimal isMantissa isExponent =>
      exact .inr ⟨_, mem_mantissa.mpr isMantissa, _, mem_exponent.mpr isExponent, rfl⟩

/-- The longest spelling at the head of a text is the one that is measured. -/
theorem isLongestPrefix_iff {text found : Bytes} : IsLongestPrefix pattern.matches' text found ↔
    width text ≠ 0 ∧ found = text.take (width text) := by
  constructor
  · rintro ⟨mem, ⟨rest, rfl⟩, longest⟩
    have isSpelling := mem_pattern.mp mem
    have least := isSpelling.length_le_width rest
    have positive : found.length ≠ 0 := by simpa using isSpelling.ne_nil
    obtain ⟨spelling, rest', same, isSpelling', length⟩ := exists_spelling (by omega : width (found ++ rest) ≠ 0)
    have most := longest spelling (mem_pattern.mpr isSpelling') ⟨rest', same.symm⟩
    have exact : width (found ++ rest) = found.length := by omega
    exact ⟨by omega, by rw [exact, List.take_left]⟩
  · rintro ⟨positive, rfl⟩
    obtain ⟨spelling, rest, rfl, isSpelling, length⟩ := exists_spelling positive
    rw [length, List.take_left]
    refine ⟨mem_pattern.mpr isSpelling, List.prefix_append _ _, ?_⟩
    rintro other matched ⟨behind, same⟩
    rw [← length, ← same]
    exact (mem_pattern.mp matched).length_le_width behind

/-- The matcher that measures the text it is shown. -/
def measure? (text : Bytes) : Option Nat := if width text = 0 then none else some (width text)

theorem measure?_eq_some_iff (text : Bytes) (n : Nat) : measure? text = some n ↔
    ∃ found, IsLongestPrefix pattern.matches' text found ∧ found.length = n := by
  have fits := (take_window text).2
  simp only [isLongestPrefix_iff]
  constructor
  · intro found
    rw [measure?] at found
    split at found
    · cases found
    · cases found
      exact ⟨_, ⟨‹_›, rfl⟩, List.length_take_of_le fits⟩
  · rintro ⟨_, ⟨positive, rfl⟩, rfl⟩
    rw [measure?, if_neg positive, List.length_take_of_le fits]

theorem measure?_findsLongest : FindsLongest pattern measure? := measure?_eq_some_iff

theorem find?_findsMatches : FindsMatches pattern find? := by
  intro text n found
  simp only [find?] at found
  split at found
  · cases found
  · rename_i accepted
    cases found
    exact ⟨(take_window text).2, (isLongestPrefix_iff.mpr ⟨fun none => accepted (.inl none), rfl⟩).mem⟩

/-- No other matcher finds the longest spelling. -/
theorem eq_measure?_of_findsLongest {find? : Bytes → Option Nat} (finds : FindsLongest pattern find?) :
    find? = measure? :=
  funext fun text => Option.ext fun n => (finds text n).trans (measure?_eq_some_iff text n).symm

/-! The spellings of natural numbers -/

/-- The natural number that a spelling without point and exponent names. -/
inductive IsNatural : Bytes → Nat → Prop where
  | decimal {raw : Bytes} (matched : raw ∈ (oneOrMore digit).matches') : IsNatural raw (Bytes.digitsValue 10 raw)
  | hexadecimal {raw : Bytes} (matched : raw ∈ Number.hexadecimal.matches') :
      IsNatural raw (Bytes.digitsValue 16 (raw.drop 2))

theorem afterHexMarker?_of_digits {raw : Bytes} (all : ∀ b ∈ raw, isDigit b = true) : afterHexMarker? raw = none := by
  refine Option.eq_none_iff_forall_ne_some.mpr fun behind marked => ?_
  obtain ⟨marker, marks, rfl⟩ := afterHexMarker?_eq_some marked
  have plain := (byte_of_digit (all marker (by simp))).1
  exact marks.elim plain.1 plain.2

theorem afterHexMarker?_of_mem {raw : Bytes} (matched : raw ∈ hexadecimal.matches') :
    afterHexMarker? raw = some (raw.drop 2) := by
  obtain ⟨marker, digits, marks, _, _, rfl⟩ := mem_hexadecimal.mp matched
  rcases marks with rfl | rfl <;> rfl

theorem IsSpelling.mem_hexadecimal {raw behind : Bytes} (isSpelling : IsSpelling raw)
    (marked : afterHexMarker? raw = some behind) : raw ∈ hexadecimal.matches' := by
  cases isSpelling with
  | hex marks nonempty all => exact Number.mem_hexadecimal.mpr ⟨_, _, marks, nonempty, all, rfl⟩
  | @decimal mantissa exponent isMantissa isExponent =>
    obtain ⟨marker, marks, same⟩ := afterHexMarker?_eq_some marked
    have member : marker ∈ mantissa ++ exponent := by
      rw [same]
      simp
    have plain : marker ≠ 0x78 ∧ marker ≠ 0x58 := by
      rcases List.mem_append.mp member with inMantissa | inExponent
      · exact isMantissa.no_marker _ inMantissa
      · exact isExponent.no_marker _ inExponent
    exact absurd marks (not_or.mpr plain)

theorem valueOf_of_hexadecimal {raw : Bytes} (matched : raw ∈ hexadecimal.matches') :
    valueOf raw = if Bytes.digitsValue 16 (raw.drop 2) < intLimit then
      .int (Int64.ofNat (Bytes.digitsValue 16 (raw.drop 2))) else .float (hexFloat (raw.drop 2)) := by
  rw [valueOf, afterHexMarker?_of_mem matched]

theorem valueOf_of_digits {raw : Bytes} (matched : raw ∈ (oneOrMore digit).matches') :
    valueOf raw = if Bytes.digitsValue 10 raw < intLimit then
      .int (Int64.ofNat (Bytes.digitsValue 10 raw)) else .float (decimalFloat raw) := by
  have all := (mem_oneOrMore_digit.mp matched).2
  rw [valueOf, afterHexMarker?_of_digits all]
  simp only [List.all_eq_true.mpr all, true_and]

/-- Neither hexadecimal nor all digits. -/
theorem IsSpelling.exists_float {raw : Bytes} (isSpelling : IsSpelling raw)
    (noDigits : raw ∉ (oneOrMore digit).matches') (noHexadecimal : raw ∉ hexadecimal.matches') :
    ∃ value, valueOf raw = .float value := by
  refine ⟨decimalFloat raw, ?_⟩
  have unmarked : afterHexMarker? raw = none :=
    Option.eq_none_iff_forall_ne_some.mpr fun _ marked => noHexadecimal (isSpelling.mem_hexadecimal marked)
  rw [valueOf, unmarked]
  refine if_neg fun integer => noDigits (mem_oneOrMore_digit.mpr ⟨isSpelling.ne_nil, ?_⟩)
  exact List.all_eq_true.mp integer.1

theorem ofNat_eq_iff {n : Nat} (fits : n < intLimit) (i : Int64) : Int64.ofNat n = i ↔ i.toInt = n := by
  rw [← Int64.toInt_inj, Int64.toInt_ofNat_of_lt fits, eq_comm]

theorem ite_eq_int_iff (n : Nat) (value : Float) (i : Int64) :
    (if n < intLimit then .int (Int64.ofNat n) else Numeral.float value) = .int i ↔ n ≤ 2 ^ 63 - 1 ∧ i.toInt = n := by
  have limit : n < intLimit ↔ n ≤ 2 ^ 63 - 1 := by
    unfold intLimit
    omega
  rw [← limit]
  split
  · rename_i fits
    rw [Numeral.int.injEq, ofNat_eq_iff fits]
    exact (and_iff_right fits).symm
  · rename_i large
    exact ⟨nofun, fun both => absurd both.1 large⟩

/-- A spelling gives an integer exactly if it names a natural number that fits. -/
theorem IsSpelling.valueOf_eq_int_iff {raw : Bytes} (isSpelling : IsSpelling raw) (i : Int64) :
    valueOf raw = .int i ↔ ∃ n, IsNatural raw n ∧ n ≤ 2 ^ 63 - 1 ∧ i.toInt = n := by
  by_cases digits : raw ∈ (oneOrMore digit).matches'
  · rw [valueOf_of_digits digits, ite_eq_int_iff]
    constructor
    · exact fun both => ⟨_, .decimal digits, both⟩
    · rintro ⟨n, natural | hexadecimal, both⟩
      · exact both
      · have marked := afterHexMarker?_of_mem hexadecimal
        rw [afterHexMarker?_of_digits (mem_oneOrMore_digit.mp digits).2] at marked
        cases marked
  by_cases hexadecimal : raw ∈ Number.hexadecimal.matches'
  · rw [valueOf_of_hexadecimal hexadecimal, ite_eq_int_iff]
    constructor
    · exact fun both => ⟨_, .hexadecimal hexadecimal, both⟩
    · rintro ⟨n, decimal | natural, both⟩
      · exact absurd decimal digits
      · exact both
  · obtain ⟨value, float⟩ := isSpelling.exists_float digits hexadecimal
    rw [float]
    refine ⟨nofun, ?_⟩
    rintro ⟨n, decimal | natural, both⟩
    · exact absurd decimal digits
    · exact absurd natural hexadecimal

end Number

end EcmaFold
