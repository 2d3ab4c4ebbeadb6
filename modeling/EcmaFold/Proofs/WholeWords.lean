import EcmaFold.Proofs.Lexer.Adjacent
import EcmaFold.Proofs.Lexer.Gap
import Mathlib.Logic.ExistsUnique

/-!
Words are matched whole. A reserved word stands at a place exactly if the whole name there is spelled like it, so the
rules for reserved words and for identifiers share out the names. What is spelled as a name is what is read as one.
-/

namespace EcmaFold

namespace Name

/-- Characters that belong to names are all there is in a text that is read as such characters. -/
theorem exists_chars_of_runes {text : Bytes} (parts : (Utf8.runes text).all fun rune => rune.1.any isPart) :
    ∃ chars : List Char, (∀ c ∈ chars, isPart c = true) ∧ text = chars.flatMap Utf8.encode := by
  obtain ⟨chars, rest, start, stops, rfl⟩ := exists_chars text
  suffices nothing : rest = [] by exact ⟨chars, start, by rw [nothing, List.append_nil]⟩
  induction chars with
  | nil =>
    obtain _ | ⟨b, rest⟩ := rest
    · rfl
    · rw [List.flatMap_nil, List.nil_append, Utf8.runes, Utf8.runesFrom] at parts
      rw [goesOn] at stops
      cases decoded : Utf8.decode? (b :: rest) <;> simp_all
  | cons c chars ih =>
    rw [List.flatMap_cons, List.append_assoc] at parts
    obtain ⟨b, step⟩ := Utf8.runes_encode c (chars.flatMap Utf8.encode ++ rest)
    rw [step, List.all_cons, Bool.and_eq_true] at parts
    exact ih (fun d member => start d (List.mem_cons_of_mem c member)) parts.2

theorem runes_all {chars : List Char} (parts : ∀ c ∈ chars, isPart c = true) :
    (Utf8.runes (chars.flatMap Utf8.encode)).all (fun rune => rune.1.any isPart) = true := by
  induction chars with
  | nil => rfl
  | cons c chars ih =>
    obtain ⟨part, parts⟩ := List.forall_mem_cons.mp parts
    obtain ⟨b, step⟩ := Utf8.runes_encode c (chars.flatMap Utf8.encode)
    rw [List.flatMap_cons, step, List.all_cons, ih parts]
    simpa using part

theorem isName_iff (text : Bytes) : isName text = true ↔ IsSpelling text := by
  constructor
  · intro holds
    cases decoded : Utf8.decode? text with
    | none =>
      cases text with
      | nil => cases holds
      | cons b rest => simp [isName, Utf8.runes, Utf8.runesFrom, decoded] at holds
    | some found =>
      obtain ⟨c, width⟩ := found
      obtain ⟨rest, rfl, -⟩ := Utf8.decode?_eq_some decoded
      obtain ⟨b, step⟩ := Utf8.runes_encode c rest
      simp only [isName, step, Option.any_some, Bool.and_eq_true] at holds
      obtain ⟨chars, parts, rfl⟩ := exists_chars_of_runes holds.2
      exact ⟨c, chars, holds.1, parts, rfl⟩
  · rintro ⟨c, chars, start, parts, rfl⟩
    obtain ⟨b, step⟩ := Utf8.runes_encode c (chars.flatMap Utf8.encode)
    rw [List.flatMap_cons, isName, step]
    simp [start, runes_all parts]

/-- The name at the head of the bytes has the spelling of a reserved word exactly if that stands there as a whole. -/
theorem read?_eq_word_iff {bytes : Bytes} {w : Word} : read? bytes = some w.spelling ↔
    w.spelling <+: bytes ∧ goesOn (bytes.drop w.spelling.length) = false := by
  constructor
  · intro read
    obtain ⟨-, rest, rfl, stops⟩ := read?_eq_some read
    rw [List.drop_left]
    exact ⟨List.prefix_append _ _, stops⟩
  · rintro ⟨⟨rest, rfl⟩, stops⟩
    rw [List.drop_left] at stops
    exact read?_append (read?_eq_some w.read?_spelling).1 stops

end Name

namespace Scanner

variable {s after : Scanner} {w : Word}

/-- A name has the spelling of a reserved word exactly where the reserved word stands. -/
theorem keyword?_iff : s.keyword? (.word w) = some (.word w, after) ↔ s.identifierName? = some (w.spelling, after) := by
  rw [keyword?_eq_some, identifierName?_eq_some, Symbol.spelling, Name.read?_eq_word_iff]
  simp

theorem isSome_keyword? : (s.keyword? (.word w)).isSome ↔ ∃ after, s.identifierName? = some (w.spelling, after) := by
  rw [Option.isSome_iff_exists]
  constructor
  · rintro ⟨⟨found, after⟩, stands⟩
    obtain rfl := (keyword?_eq_some.mp stands).2.1
    exact ⟨after, keyword?_iff.mp stands⟩
  · rintro ⟨after, named⟩
    exact ⟨_, keyword?_iff.mpr named⟩

/-- Where there is a name it is either an identifier or one reserved word. -/
theorem identifier?_or_keyword? {found : Bytes × Scanner} (named : s.identifierName? = some found) :
    s.identifier? = some found ∧ (∀ w, s.keyword? (.word w) = none) ∨
      s.identifier? = none ∧ ∃! w, (s.keyword? (.word w)).isSome := by
  have spelled (w : Word) : (s.keyword? (.word w)).isSome ↔ Word.ofSpelling? found.1 = some w := by
    rw [isSome_keyword?, named]
    constructor
    · rintro ⟨after, same⟩
      cases same
      exact w.ofSpelling?_spelling
    · intro reserved
      exact ⟨found.2, by rw [Word.spelling_of_ofSpelling? reserved]⟩
  rw [identifier?_eq, named]
  cases reserved : Word.ofSpelling? found.1 with
  | none =>
    refine .inl ⟨by simp [Option.filter_some, reserved], fun w => ?_⟩
    rw [← Option.not_isSome_iff_eq_none, spelled, reserved]
    exact nofun
  | some w =>
    refine .inr ⟨by simp [Option.filter_some, reserved], w, (spelled w).mpr reserved, fun other stands => ?_⟩
    exact Option.some.inj (((spelled other).mp stands).symm.trans reserved)

/-- A source is a name exactly if the name read from it is the whole of it. -/
theorem isName_iff_identifierName? (text : Bytes) :
    Name.isName text = true ↔ (ofSource text).identifierName?.map Prod.fst = some text := by
  rw [Name.isName_iff]
  constructor
  · intro spelling
    have noTrivia := Name.piece?_eq_none spelling []
    have read := @Name.read?_append text [] spelling rfl
    rw [List.append_nil] at noTrivia read
    have stays : (ofSource text).skip = ofSource text := skip_eq_self noTrivia
    rw [identifierName?_eq_some.mpr ⟨by rw [stays]; exact read, rfl⟩]
    rfl
  · intro whole
    obtain ⟨⟨name, after⟩, named, rfl⟩ := Option.map_eq_some_iff.mp whole
    exact (Name.read?_eq_some (identifierName?_eq_some.mp named).1).1

/-- Words are matched whole: a reserved word stands where the name is spelled like it, and both end at the same place.
Where there is a name, it is either an identifier or exactly one reserved word; where there is none, there is neither.
What is spelled as a name is what is read as one. -/
theorem words_whole :
    (∀ (s : Scanner) (w : Word) (after : Scanner),
      s.keyword? (.word w) = some (.word w, after) ↔ s.identifierName? = some (w.spelling, after)) ∧
    (∀ s : Scanner,
      s.identifierName? = none ∧ s.identifier? = none ∧ (∀ w, s.keyword? (.word w) = none) ∨
      ∃ found, s.identifierName? = some found ∧
        (s.identifier? = some found ∧ (∀ w, s.keyword? (.word w) = none) ∨
          s.identifier? = none ∧ ∃! w, (s.keyword? (.word w)).isSome)) ∧
    ∀ text : Bytes, Name.isName text = true ↔ (ofSource text).identifierName?.map Prod.fst = some text := by
  refine ⟨fun s w after => keyword?_iff, fun s => ?_, isName_iff_identifierName?⟩
  cases named : s.identifierName? with
  | none =>
    refine .inl ⟨rfl, by rw [identifier?_eq, named]; rfl, fun w => ?_⟩
    rw [← Option.not_isSome_iff_eq_none, isSome_keyword?, named]
    rintro ⟨after, same⟩
    cases same
  | some found => exact .inr ⟨found, rfl, identifier?_or_keyword? named⟩

end Scanner

end EcmaFold
