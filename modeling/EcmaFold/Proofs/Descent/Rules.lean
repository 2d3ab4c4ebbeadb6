import EcmaFold.Parser.Expression
import EcmaFold.Proofs.Descent.Basic
import EcmaFold.Proofs.WholeWords

/-!
What the lexical rules find where a token comes next. A rule that reads bytes finds what is the token there or
nothing, for no two rules match at one place; only the point that a number such as `.5` begins with is a
punctuator too.
-/

namespace EcmaFold

/-- Where a punctuator comes first, no other rule finds anything, but for a number behind a point. -/
theorem Punct.longest?_alone {bytes : Bytes} {p : Punct} (found : longest? bytes = some p) :
    StringLiteral.read? bytes = none ∧ Name.read? bytes = none ∧ (p ≠ dot → Number.read? bytes = none) := by
  obtain ⟨rest, rfl, -⟩ := longest?_eq_some found
  obtain ⟨b, tail, spelled, first⟩ := p.exists_head
  rw [spelled, List.cons_append]
  exact ⟨StringLiteral.read?_eq_none first.noDouble first.noSingle, Name.read?_eq_none _ first.ascii first.noStart,
    fun noDot => Number.read?_eq_none first.noDigit fun isPoint => absurd (first.point isPoint) noDot⟩

theorem Name.read?_alone {bytes name : Bytes} (found : read? bytes = some name) :
    Number.read? bytes = none ∧ StringLiteral.read? bytes = none ∧ Punct.longest? bytes = none := by
  obtain ⟨isSpelling, rest, rfl, -⟩ := read?_eq_some found
  obtain ⟨noNumber, noString⟩ := read_of_spelling isSpelling rest
  refine ⟨noNumber, noString, Option.eq_none_iff_forall_ne_some.mpr fun p punct => ?_⟩
  rw [(Punct.longest?_alone punct).2.1] at found
  cases found

/-- Nothing longer than a point begins with one. -/
theorem Punct.longest?_point (rest : Bytes) : longest? (0x2E :: rest) = some .dot := by
  cases found : longest? (0x2E :: rest) with
  | none =>
    have shorter := List.find?_eq_none.mp found .dot (mem_longestFirst _)
    exact absurd (List.isPrefixOf_iff_prefix.mpr ⟨rest, rfl⟩) shorter
  | some p =>
    obtain ⟨behind, same, -⟩ := longest?_eq_some found
    obtain ⟨b, tail, spelled, first⟩ := p.exists_head
    rw [spelled] at same
    cases same
    rw [first.point rfl]

/-- What begins a number is a punctuator only if it is a point, and then a digit stands behind it. -/
theorem Number.longest?_of_read? {bytes : Bytes} {value : Number} (found : read? bytes = some value) :
    Punct.longest? bytes = none ∧ value.raw.head? ≠ some 0x2E ∨
      Punct.longest? bytes = some .dot ∧ value.raw.head? = some 0x2E ∧
        ∃ digit behind, bytes = 0x2E :: digit :: behind ∧ Bytes.isDigit digit = true := by
  obtain ⟨isSpelling, -, -, rest, rfl, -⟩ := read?_eq_some found
  obtain ⟨b, tail, raw, isDigit | ⟨rfl, digit, behind, rfl, isDigit⟩⟩ := isSpelling.exists_head
  · refine .inl ⟨Option.eq_none_iff_forall_ne_some.mpr fun p longest => ?_, ?_⟩
    · obtain ⟨behind, same, -⟩ := Punct.longest?_eq_some longest
      obtain ⟨b', tail', spelled, first⟩ := p.exists_head
      rw [raw, spelled, List.cons_append, List.cons_append, List.cons.injEq] at same
      rw [same.1, first.noDigit] at isDigit
      cases isDigit
    · rw [raw, List.head?_cons, ne_eq, Option.some.injEq]
      rintro rfl
      cases isDigit
  · refine .inr ⟨?_, by rw [raw, List.head?_cons], digit, behind ++ rest, by rw [raw]; rfl, isDigit⟩
    rw [raw]
    exact Punct.longest?_point _

namespace Token

/-- Which rule finds the token at the head of the bytes. The other rules find nothing there. -/
inductive Found (bytes : Bytes) : Prop where
  | number {value : Number} (read : Token.read bytes = (.number value, value.raw.length))
      (number : Number.read? bytes = some value) (string : StringLiteral.read? bytes = none)
      (name : Name.read? bytes = none) (punct : ∀ p ∈ Punct.longest? bytes, p = .dot)
  | string {value : Bytes} {width : Nat} (read : Token.read bytes = (.string value, width))
      (number : Number.read? bytes = none) (string : StringLiteral.read? bytes = some (value, width))
      (name : Name.read? bytes = none) (punct : Punct.longest? bytes = none)
  | name {spelling : Bytes} (read : Token.read bytes = (.ofName spelling, spelling.length))
      (number : Number.read? bytes = none) (string : StringLiteral.read? bytes = none)
      (name : Name.read? bytes = some spelling) (punct : Punct.longest? bytes = none)
  | punct {p : Punct} (read : Token.read bytes = (.punct p, p.spelling.length))
      (number : Number.read? bytes = none) (string : StringLiteral.read? bytes = none)
      (name : Name.read? bytes = none) (punct : Punct.longest? bytes = some p)
  | stray {text : Bytes} {width : Nat} (read : Token.read bytes = (.stray text, width))
      (number : Number.read? bytes = none) (string : StringLiteral.read? bytes = none)
      (name : Name.read? bytes = none) (punct : Punct.longest? bytes = none)

theorem found (bytes : Bytes) : Found bytes := by
  have noName {text : Bytes} (other : Punct.longest? bytes ≠ none ∨ Number.read? bytes ≠ none ∨
      StringLiteral.read? bytes ≠ none) : Name.read? bytes ≠ some text := by
    intro name
    obtain ⟨noNumber, noString, noPunct⟩ := Name.read?_alone name
    simp [noNumber, noString, noPunct] at other
  cases punct : Punct.longest? bytes with
  | some p =>
    obtain ⟨string, name, number⟩ := Punct.longest?_alone punct
    cases found : Number.read? bytes with
    | none => exact .punct (by rw [read, found, string, name, punct]) found string name punct
    | some value =>
      refine .number (by rw [read, found]) found string name ?_
      rw [punct]
      rintro _ ⟨⟩
      by_contra noDot
      rw [number noDot] at found
      cases found
  | none =>
    cases string : StringLiteral.read? bytes with
    | some literal =>
      have taken := read_of_literal string
      cases number : Number.read? bytes with
      | some value =>
        rw [read, number] at taken
        cases taken
      | none =>
        have name := Option.eq_none_iff_forall_ne_some.mpr fun _ => noName (by simp [string])
        exact .string taken number string name punct
    | none =>
      cases name : Name.read? bytes with
      | some spelling =>
        have number := (Name.read?_alone name).1
        exact .name (by rw [read, number, string, name]) number string name punct
      | none =>
        cases number : Number.read? bytes with
        | some value => exact .number (by rw [read, number]) number string name (by simp [punct])
        | none =>
          obtain ⟨text, width, isStray⟩ := exists_strayAt bytes
          exact .stray (by rw [read, number, string, name, punct, isStray]) number string name punct

/-- The token of a name is that name, or the reserved word that is spelled so. -/
theorem ofName_cases (spelling : Bytes) : ofName spelling = .name spelling ∧ Word.ofSpelling? spelling = none ∨
    ∃ w : Word, ofName spelling = .keyword w ∧ Word.ofSpelling? spelling = some w ∧ w.spelling = spelling := by
  unfold ofName
  cases reserved : Word.ofSpelling? spelling with
  | none => exact .inl ⟨rfl, rfl⟩
  | some w => exact .inr ⟨w, rfl, rfl, Word.spelling_of_ofSpelling? reserved⟩

end Token

namespace Scanner

variable {α β : Type} {source : Bytes} {select : Token → Option α}

/-- What is read of the bytes at a token is what is selected of the token, and takes its room. -/
structure Reads (read : Bytes → Option (α × Nat)) (select : Token → Option α) : Prop where
  nothing : read [] = none
  ending : select .ending = none
  token : ∀ bytes, read bytes = (select (Token.read bytes).1).map (·, (Token.read bytes).2)

/-- Wherever the next token of a cursor comes next, the rule finds what is selected of it and goes behind it. -/
def Finds (source : Bytes) (rule : Scanner → Option (α × Scanner)) (select : Token → Option α) : Prop :=
  ∀ (t : Scanner) (c : Cursor), c.Scanned source → t.skip = ⟨source, c.offset⟩ →
    (∃ token v after, c.Steps token after ∧ select token = some v ∧ after.Scanned source ∧
      rule t = some (v, ⟨source, after.stop⟩)) ∨
    (∀ token ∈ c.next?, select token = none) ∧ rule t = none

theorem Reads.finds {read : Bytes → Option (α × Nat)} (reads : Reads read select) :
    Finds source (rule read) select := by
  intro t c scanned skip
  rw [rule, skip, rest]
  rcases scanned.next with ⟨nothing, ending⟩ | ⟨-, behind, steps, scanned'⟩
  · rw [nothing, reads.nothing, ending]
    refine .inr ⟨?_, rfl⟩
    rintro _ ⟨⟩
    exact reads.ending
  · rw [reads.token]
    cases selected : select (Token.read (source.drop c.offset)).1 with
    | some v => exact .inl ⟨_, v, _, steps, selected, scanned', rfl⟩
    | none =>
      refine .inr ⟨?_, rfl⟩
      rw [steps.next?]
      rintro _ ⟨⟩
      exact selected

/-! The rules -/

/-- The number that a token is. -/
def numberOf? : Token → Option Number
  | .number value => some value
  | _ => none

/-- The text that a token is a literal of. -/
def stringOf? : Token → Option Bytes
  | .string value => some value
  | _ => none

/-- The punctuator that a token is, if it is among those asked for. -/
def punctOf? (puncts : List Punct) : Token → Option Symbol
  | .punct p => if p ∈ puncts then some (.punct p) else none
  | _ => none

/-- The reserved word that a token is, if it is among those asked for. -/
def wordOf? (words : List Word) : Token → Option Symbol
  | .keyword w => if w ∈ words then some (.word w) else none
  | _ => none

theorem punctOf?_eq_some {puncts : List Punct} {token : Token} {symbol : Symbol}
    (found : punctOf? puncts token = some symbol) : ∃ p ∈ puncts, symbol = .punct p := by
  cases token with
  | punct p =>
    by_cases asked : p ∈ puncts <;> simp only [punctOf?, asked, if_true, if_false, reduceCtorEq] at found
    cases found
    exact ⟨p, asked, rfl⟩
  | _ => cases found

theorem wordOf?_eq_some {words : List Word} {token : Token} {symbol : Symbol}
    (found : wordOf? words token = some symbol) : ∃ w ∈ words, symbol = .word w := by
  cases token with
  | keyword w =>
    by_cases asked : w ∈ words <;> simp only [wordOf?, asked, if_true, if_false, reduceCtorEq] at found
    cases found
    exact ⟨w, asked, rfl⟩
  | _ => cases found

theorem reads_number :
    Reads (fun bytes => (Number.read? bytes).map fun number => (number, number.raw.length)) numberOf? where
  nothing := rfl
  ending := rfl
  token bytes := by
    rcases Token.found bytes with read | read | @⟨spelling, read⟩ | read | read
    case name =>
      rcases Token.ofName_cases spelling with ⟨same, -⟩ | ⟨w, same, -⟩ <;> simp [*, numberOf?]
    all_goals simp [*, numberOf?]

theorem reads_string : Reads StringLiteral.read? stringOf? where
  nothing := rfl
  ending := rfl
  token bytes := by
    rcases Token.found bytes with read | read | @⟨spelling, read⟩ | read | read
    case name =>
      rcases Token.ofName_cases spelling with ⟨same, -⟩ | ⟨w, same, -⟩ <;> simp [*, stringOf?]
    all_goals simp [*, stringOf?]

theorem reads_name : Reads (fun bytes => (Name.read? bytes).map fun name => (name, name.length)) Grammar.anyName? where
  nothing := rfl
  ending := rfl
  token bytes := by
    rcases Token.found bytes with read | read | @⟨spelling, read⟩ | read | read
    case name =>
      rcases Token.ofName_cases spelling with ⟨same, -⟩ | ⟨w, same, -, rfl⟩ <;> simp [*, Grammar.anyName?]
    all_goals simp [*, Grammar.anyName?]

/-- An identifier is a name that is not reserved. -/
theorem reads_identifier :
    Reads (fun bytes => (Name.identifier? bytes).map fun name => (name, name.length)) Parser.nameOf? where
  nothing := rfl
  ending := rfl
  token bytes := by
    rcases Token.found bytes with read | read | @⟨spelling, read⟩ | read | read
    case name =>
      rcases Token.ofName_cases spelling with ⟨same, free⟩ | ⟨w, same, reserved, -⟩ <;>
        simp [*, Name.identifier?, Option.filter_some, Parser.nameOf?]
    all_goals simp [*, Name.identifier?, Parser.nameOf?]

/-- A reserved word is a name that is spelled so. -/
theorem reads_keyword (w : Word) :
    Reads (fun bytes =>
      let width := (Symbol.word w).spelling.length
      if (Symbol.word w).spelling.isPrefixOf bytes ∧ ¬ Name.goesOn (bytes.drop width) then some (.word w, width)
      else none) (wordOf? [w]) where
  nothing := by cases w <;> rfl
  ending := rfl
  token bytes := by
    simp only [Symbol.spelling, List.isPrefixOf_iff_prefix, Bool.not_eq_true, ← Name.read?_eq_word_iff]
    rcases Token.found bytes with read | read | @⟨spelling, read⟩ | read | read
    case name =>
      rcases Token.ofName_cases spelling with ⟨same, free⟩ | ⟨v, same, reserved, rfl⟩
      · have different : spelling ≠ w.spelling := by
          rintro rfl
          rw [w.ofSpelling?_spelling] at free
          cases free
        simp [*, wordOf?]
      · by_cases isWord : v = w
        · subst isWord
          simp [*, wordOf?]
        · have different : v.spelling ≠ w.spelling := by
            intro same
            rw [same, w.ofSpelling?_spelling] at reserved
            exact isWord (Option.some.inj reserved).symm
          simp [*, wordOf?]
    all_goals simp [*, wordOf?]

/-- Only the point is at the head of another token as well. -/
theorem reads_punct {puncts : List Punct} (noDot : .dot ∉ puncts) :
    Reads (fun bytes =>
      let (symbol, width) := symbolAt bytes
      if symbol ∈ puncts.map .punct then some (symbol, width) else none) (punctOf? puncts) where
  nothing := by simp [symbolAt, show Punct.longest? [] = none by decide]
  ending := rfl
  token bytes := by
    rcases Token.found bytes with ⟨read, -, -, -, punct⟩ | read | @⟨spelling, read⟩ | read | read
    case number =>
      cases longest : Punct.longest? bytes with
      | none => simp [*, symbolAt, punctOf?]
      | some p =>
        obtain rfl := punct p longest
        simp [*, symbolAt, punctOf?]
    case name =>
      rcases Token.ofName_cases spelling with ⟨same, -⟩ | ⟨w, same, -⟩ <;> simp [*, symbolAt, punctOf?]
    all_goals simp [*, symbolAt, punctOf?]

theorem number?_finds : Finds source number? numberOf? := reads_number.finds

theorem stringLiteral?_finds : Finds source stringLiteral? stringOf? := reads_string.finds

theorem identifierName?_finds : Finds source identifierName? Grammar.anyName? := reads_name.finds

theorem punctIn?_finds {puncts : List Punct} (noDot : .dot ∉ puncts) :
    Finds source (punctIn? (puncts.map .punct)) (punctOf? puncts) :=
  (reads_punct noDot).finds

theorem identifier?_finds : Finds source identifier? Parser.nameOf? := reads_identifier.finds

theorem keyword?_finds (w : Word) : Finds source (keyword? (.word w)) (wordOf? [w]) := (reads_keyword w).finds

theorem keywordIn?_finds (words : List Word) : Finds source (keywordIn? (words.map .word)) (wordOf? words) := by
  intro t c scanned skip
  induction words with
  | nil => exact .inr ⟨fun token _ => by cases token <;> rfl, rfl⟩
  | cons w words ih =>
    have split (token : Token) : wordOf? (w :: words) token = (wordOf? [w] token).or (wordOf? words token) := by
      cases token with
      | keyword v => by_cases isWord : v = w <;> simp [wordOf?, isWord]
      | _ => rfl
    simp only [split, List.map_cons, keywordIn?, List.findSome?_cons]
    rcases keyword?_finds w t c scanned skip with ⟨token, v, after, steps, selected, scanned', found⟩ | ⟨none, nothing⟩
    · exact .inl ⟨token, v, after, steps, by rw [selected, Option.some_or], scanned', by rw [found]⟩
    · rw [nothing]
      rcases ih with ⟨token, v, after, steps, selected, scanned', found⟩ | ⟨none', nothing'⟩
      · exact .inl ⟨token, v, after, steps, by rw [none token steps.next?, Option.none_or, selected], scanned', found⟩
      · exact .inr ⟨fun token next => by rw [none token next, none' token next, Option.none_or], nothing'⟩

end Scanner

end EcmaFold
