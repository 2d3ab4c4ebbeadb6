import EcmaFold.Lexer.Scanner
import EcmaFold.Proofs.Lexer.Grammar

/-!
Numbers are read exactly where a spelling of the grammar stands that no name goes on with, whatever the matcher, as
long as it finds the longest spelling.
-/

namespace EcmaFold

open Pattern (FindsLongest IsLongestPrefix)

namespace Number

variable {find? : Bytes → Option Nat}

theorem readBy?_of_findsLongest (finds : FindsLongest pattern find?) (bytes : Bytes) : readBy? find? bytes =
    if width bytes = 0 ∨ Name.goesOn (bytes.drop (width bytes)) then none
    else some ⟨bytes.take (width bytes), valueOf (bytes.take (width bytes))⟩ := by
  rw [eq_measure?_of_findsLongest finds]
  exact @readBy?_eq measure? (· = 0) _ (fun _ => rfl) bytes

/-- What is read is the longest spelling, and a longest spelling is read unless a name goes on with it. -/
theorem readBy?_eq_some_iff (finds : FindsLongest pattern find?) (bytes : Bytes) (number : Number) :
    readBy? find? bytes = some number ↔ IsLongestPrefix pattern.matches' bytes number.raw ∧
      Name.goesOn (bytes.drop number.raw.length) = false ∧ number.value = valueOf number.raw := by
  have fits := (take_window bytes).2
  rw [readBy?_of_findsLongest finds, isLongestPrefix_iff]
  constructor
  · intro found
    split at found
    · cases found
    · rename_i accepted
      obtain ⟨positive, stops⟩ := not_or.mp accepted
      cases found
      refine ⟨⟨positive, rfl⟩, ?_, rfl⟩
      simpa only [List.length_take_of_le fits] using Bool.eq_false_iff.mpr stops
  · obtain ⟨raw, value⟩ := number
    dsimp only
    rintro ⟨⟨positive, rfl⟩, stops, rfl⟩
    rw [List.length_take_of_le fits] at stops
    rw [if_neg (by simp [positive, stops])]

/-- The matcher in use finds the same, up to spellings of a certain length. -/
theorem read?_eq_filter (finds : FindsLongest pattern find?) (bytes : Bytes) :
    read? bytes = (readBy? find? bytes).filter fun number => number.raw.length ≤ matcherReach := by
  have fits := (take_window bytes).2
  rw [readBy?_of_findsLongest finds, read?_eq]
  by_cases refused : width bytes = 0 ∨ Name.goesOn (bytes.drop (width bytes)) = true
  · rw [if_pos refused, if_pos (refused.imp_left .inl)]
    rfl
  · obtain ⟨positive, stops⟩ := not_or.mp refused
    rw [if_neg refused, Option.filter_some, List.length_take_of_le fits]
    by_cases short : width bytes ≤ matcherReach
    · rw [if_neg (by simp [positive, stops, short]), if_pos (decide_eq_true short)]
    · rw [if_pos (.inl (.inr (Nat.not_le.mp short))), if_neg (by simpa using short)]

end Number

namespace Scanner

theorem numberBy?_eq (find? : Bytes → Option Nat) (s : Scanner) : s.numberBy? find? =
    (Number.readBy? find? s.skip.rest).map fun number => (number, s.skip.advance number.raw.length) :=
  Option.map_map _ _ _

/-- With a matcher that finds the longest spelling, a number is read exactly if the text behind the trivia begins with a
spelling and no name goes on with the longest one. It is that spelling as a whole, and an integer exactly if it is
hexadecimal or all digits and its value fits. The matcher in use refuses spellings over a certain length, and is no
different otherwise. -/
theorem numberBy?_of_findsLongest {find? : Bytes → Option Nat} (finds : FindsLongest Number.pattern find?)
    (s : Scanner) :
    ((s.numberBy? find?).isSome = true ↔ ∃ raw, IsLongestPrefix Number.pattern.matches' s.skip.rest raw ∧
      Name.goesOn (s.skip.rest.drop raw.length) = false) ∧
    (∀ number after, s.numberBy? find? = some (number, after) →
      IsLongestPrefix Number.pattern.matches' s.skip.rest number.raw ∧ after = s.skip.advance number.raw.length ∧
      ∀ i, number.value = .int i ↔ ∃ n, Number.IsNatural number.raw n ∧ n ≤ 2 ^ 63 - 1 ∧ i.toInt = n) ∧
    s.number? = (s.numberBy? find?).filter fun found => found.1.raw.length ≤ Number.matcherReach := by
  have read (number : Number) := Number.readBy?_eq_some_iff finds s.skip.rest number
  refine ⟨?_, ?_, ?_⟩
  · rw [numberBy?_eq, Option.isSome_map, Option.isSome_iff_exists]
    constructor
    · rintro ⟨number, found⟩
      obtain ⟨longest, stops, -⟩ := (read number).mp found
      exact ⟨number.raw, longest, stops⟩
    · rintro ⟨raw, longest, stops⟩
      exact ⟨⟨raw, Number.valueOf raw⟩, (read _).mpr ⟨longest, stops, rfl⟩⟩
  · intro number after found
    rw [numberBy?_eq] at found
    obtain ⟨_, atRest, same⟩ := Option.map_eq_some_iff.mp found
    cases same
    obtain ⟨longest, -, value⟩ := (read number).mp atRest
    refine ⟨longest, rfl, fun i => ?_⟩
    rw [value]
    exact (Number.mem_pattern.mp longest.mem).valueOf_eq_int_iff i
  · rw [number?, numberBy?_eq, numberBy?_eq, Option.filter_map]
    exact congrArg _ (Number.read?_eq_filter finds _)

/-- A sign behind an e is looked at, but it does not go on with a hexadecimal number. -/
theorem numberBy?_of_findsLongest_sign :
    FindsLongest Number.pattern Number.measure? ∧
      IsLongestPrefix Number.pattern.matches' (utf8 "0x1e+1") (utf8 "0x1e") ∧
      Number.IsNatural (utf8 "0x1e") 30 ∧
      (ofSource (utf8 "/**/0x1e+1")).numberBy? Number.measure? =
        some (⟨utf8 "0x1e", .int 30⟩, ⟨utf8 "/**/0x1e+1", 8⟩) := by
  have found : (ofSource (utf8 "/**/0x1e+1")).numberBy? Number.measure? =
      some (⟨utf8 "0x1e", .int 30⟩, ⟨utf8 "/**/0x1e+1", 8⟩) := rfl
  obtain ⟨-, read, -⟩ := numberBy?_of_findsLongest Number.measure?_findsLongest (ofSource (utf8 "/**/0x1e+1"))
  obtain ⟨longest, -, value⟩ := read _ _ found
  obtain ⟨n, natural, -, same⟩ := (value 30).mp rfl
  obtain rfl : n = 30 := by
    have : (n : Int) = 30 := same.symm
    omega
  exact ⟨Number.measure?_findsLongest, longest, natural, found⟩

end Scanner

end EcmaFold
