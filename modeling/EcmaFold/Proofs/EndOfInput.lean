import EcmaFold.Proofs.Reading
import EcmaFold.Proofs.Rejection

/-!
How a rejection shows the end of the input. What was found is shown without quotes where the input ends, and also where
the next word of the source happens to be the one that stands for the end.
-/

namespace EcmaFold

namespace SyntaxError

/-- The bytes begin with a word: a blank follows it or nothing. -/
def StartsWord (word bytes : Bytes) : Prop :=
  ∃ behind, bytes = word ++ behind ∧ ∀ b ∈ behind.head?, isBlank b = true

theorem startsWord_cons_iff {first b : UInt8} {word bytes : Bytes} :
    StartsWord (first :: word) (b :: bytes) ↔ b = first ∧ StartsWord word bytes := by
  simp only [StartsWord, List.cons_append, List.cons.injEq, and_assoc, exists_and_left]

theorem not_startsWord_nil (first : UInt8) (word : Bytes) : ¬ StartsWord (first :: word) [] := by
  rintro ⟨behind, same, -⟩
  cases same

/-- The run of bytes other than blanks is a word if and only if that word stands there, as long as it is short enough
to be seen as a whole. -/
theorem run_eq_iff {word bytes : Bytes} {limit : Nat} (noBlank : ∀ b ∈ word, isBlank b = false)
    (short : word.length < limit) :
    (bytes.take limit).takeWhile (fun b => !isBlank b) = word ↔ StartsWord word bytes := by
  obtain ⟨limit, rfl⟩ := Nat.exists_eq_succ_of_ne_zero (Nat.ne_zero_of_lt short)
  induction word generalizing bytes limit with
  | nil =>
    cases bytes with
    | nil => simp [StartsWord]
    | cons b bytes => cases blank : isBlank b <;> simp [StartsWord, blank]
  | cons first word ih =>
    obtain ⟨firstNoBlank, restNoBlank⟩ := List.forall_mem_cons.mp noBlank
    cases bytes with
    | nil => simp [not_startsWord_nil]
    | cons b bytes =>
      rw [List.length_cons, Nat.succ_lt_succ_iff] at short
      obtain ⟨limit, rfl⟩ := Nat.exists_eq_succ_of_ne_zero (Nat.ne_zero_of_lt short)
      rw [startsWord_cons_iff, ← ih restNoBlank limit short, List.take_succ_cons]
      cases blank : isBlank b with
      | false => simp [blank]
      | true =>
        have other : b ≠ first := by
          rintro rfl
          rw [firstNoBlank] at blank
          cases blank
        simp [blank, other]

/-- The end mark is found at the end of the source and where the source goes on with the same word. -/
theorem foundAt_eq_endMark_iff (source : Bytes) (offset : Nat) :
    foundAt source offset = endMark ↔ source.drop offset = [] ∨ StartsWord endMark (source.drop offset) := by
  unfold foundAt
  split
  · rename_i ended
    simp [ended]
  · rename_i going
    have noBlank : ∀ b ∈ endMark, isBlank b = false := by
      rw [show endMark = [0x45, 0x4F, 0x46] from rfl]
      simp [isBlank]
    have run := @run_eq_iff endMark (source.drop offset) 16 noBlank (by decide)
    rw [or_iff_right going, ← run]
    dsimp only
    split
    · rename_i empty
      rw [List.isEmpty_iff.mp empty]
      refine iff_of_false (fun same => ?_) (by decide)
      have length := congrArg List.length same
      rw [List.length_take] at length
      exact absurd (Nat.min_le_left 1 _) (by rw [length]; decide)
    · rfl

/-- The message ends with the end mark, and without a quote, only when the end mark was found. -/
theorem found_suffix_message_iff (error : SyntaxError) :
    utf8 "found EOF" <:+ error.message ↔ error.found = endMark := by
  by_cases same : error.found = endMark
  · refine iff_of_true ⟨utf8 "syntax error at " ++ error.position.text ++ utf8 ": expected " ++
      Expectation.describe (error.expected.map (·.text)) ++ utf8 ", ", ?_⟩ same
    simp only [message, reason, if_pos same, List.append_assoc]
    rfl
  · refine iff_of_false ?_ same
    rintro ⟨front, whole⟩
    have marked : utf8 "found EOF" = utf8 "found EO" ++ [Bytes.ofAscii 'F'] := by decide
    simp only [message, reason, if_neg same, Quoted.debug, marked, ← List.append_assoc] at whole
    exact absurd (List.append_inj' whole rfl).2 (by decide)

end SyntaxError

namespace Program

open SyntaxError

/-- A rejection says that the end of the input was found if and only if it was found there or the next word of the
source is the one that stands for it. Of the two only one can be. -/
theorem endMark_of_parse_error {file source : Bytes} {error : SyntaxError} (rejected : parse file source = .error error) :
    (utf8 "found EOF" <:+ error.message ↔ error.found = endMark) ∧
      (error.found = endMark ↔
        error.position.offset = source.length ∨ StartsWord endMark (source.drop error.position.offset)) ∧
      ¬ (error.position.offset = source.length ∧ StartsWord endMark (source.drop error.position.offset)) := by
  obtain ⟨⟨failure, -, rfl⟩, -⟩ := parse_error_explains rejected
  -- The place that is shown is the one that the text was taken from, unless that lies behind the end.
  have place : source.drop (min failure.offset source.length) = source.drop failure.offset := by
    rcases Nat.le_total failure.offset source.length with inside | behind
    · rw [Nat.min_eq_left inside]
    · rw [Nat.min_eq_right behind, List.drop_length, List.drop_eq_nil_of_le behind]
  have ended : min failure.offset source.length = source.length ↔ source.drop failure.offset = [] := by
    rw [List.drop_eq_nil_iff]
    omega
  refine ⟨found_suffix_message_iff _, ?_, ?_⟩
  · change foundAt source failure.offset = endMark ↔ min failure.offset source.length = source.length ∨
      StartsWord endMark (source.drop (min failure.offset source.length))
    rw [foundAt_eq_endMark_iff, ended, place]
  · change ¬ (min failure.offset source.length = source.length ∧
      StartsWord endMark (source.drop (min failure.offset source.length)))
    rw [ended, place]
    rintro ⟨empty, starts⟩
    rw [empty] at starts
    exact not_startsWord_nil _ _ starts

/-- At the end of `a` a semicolon is missing. -/
theorem endMark_of_parse_error_semicolon :
    ∃ error, parse [] (utf8 "a") = .error error ∧ error.position.offset = (utf8 "a").length ∧
      error.found = endMark ∧ utf8 "found EOF" <:+ error.message := by
  have rejected := @parse_eq_error [] (utf8 "a") (by decide)
  obtain ⟨shown, found, -⟩ := endMark_of_parse_error rejected
  refine ⟨_, rejected, by decide, found.mpr (.inl (by decide)), shown.mpr (found.mpr (.inl ?_))⟩
  decide

/-- In `EOF EOF` it is missing in front of the second name, which is taken for the end. -/
theorem endMark_of_name :
    ∃ error, parse [] (utf8 "EOF EOF") = .error error ∧ error.position.offset = 4 ∧ (utf8 "EOF EOF").length = 7 ∧
      error.found = endMark ∧ utf8 "found EOF" <:+ error.message := by
  refine ⟨_, parse_eq_error (by decide), by decide, by decide, by decide, ?_⟩
  exact (found_suffix_message_iff _).mpr (by decide)

end Program

end EcmaFold
