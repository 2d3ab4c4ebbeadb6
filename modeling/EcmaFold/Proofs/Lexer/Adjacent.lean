import EcmaFold.Proofs.Lexer.Numeral
import EcmaFold.Proofs.Lexer.Quotation
import EcmaFold.Proofs.Lexer.Sequence
import EcmaFold.Proofs.Vocabulary

/-!
Tokens read back from their spelling, in front of bytes that do not join with it.
-/

namespace EcmaFold

theorem Bytes.mem_digits {b : UInt8} (digit : isDigit b = true) : b ∈ utf8 "0123456789" := by
  have table : ∀ b : UInt8, isDigit b = true → b ∈ utf8 "0123456789" := by
    refine Bytes.forall_byte ?_
    decide +kernel
  exact table b digit

namespace Punct

theorem mem_longestFirst (p : Punct) : p ∈ longestFirst := by
  have table : ∀ p ∈ all, p ∈ longestFirst := by decide +kernel
  exact table p p.mem_all

/-- The bytes that would turn a punctuator in front of them into something else: a longer one, a number, or a
comment. -/
def joins (p : Punct) : List UInt8 :=
  (longestFirst.filter fun q => p.spelling.isPrefixOf q.spelling).filterMap (·.spelling[p.spelling.length]?) ++
    match p with
    | dot => utf8 "0123456789"
    | div => utf8 "/*"
    | _ => []

/-- What is said about the first byte of a punctuator. -/
structure IsHead (p : Punct) (b : UInt8) : Prop where
  ascii : b < 0x80
  noStart : Name.isStart (Char.ofNat b.toNat) = false
  noBlank : ¬ (b = 0x20 ∨ b = 0x09 ∨ b = 0x0B ∨ b = 0x0C)
  noLine : ¬ (b = 0x0A ∨ b = 0x0D)
  noDigit : Bytes.isDigit b = false
  noDouble : b ≠ 0x22
  noSingle : b ≠ 0x27
  point : b = 0x2E → p = dot
  slash : b = 0x2F → p = div ∨ p = divAssign

theorem exists_head (p : Punct) : ∃ b tail, p.spelling = b :: tail ∧ p.IsHead b := by
  cases p <;> exact ⟨_, _, rfl, by decide, by decide, by decide, by decide, by decide, by decide, by decide,
    by decide, by decide⟩

theorem longestFirst_ordered :
    longestFirst.Pairwise fun q p => p.spelling.length ≤ q.spelling.length ∧ q.spelling ≠ p.spelling := by
  decide +kernel

/-- The longest punctuator is the one that is spelled, if what follows does not make it longer. -/
theorem longest?_append {p : Punct} {rest : Bytes} (apart : ∀ b ∈ rest.head?, b ∉ p.joins) :
    longest? (p.spelling ++ rest) = some p := by
  obtain ⟨before, behind, split⟩ := List.append_of_mem p.mem_longestFirst
  have ordered := longestFirst_ordered
  rw [split, List.pairwise_append] at ordered
  rw [longest?, List.find?_eq_some_iff_append]
  refine ⟨by simp, before, behind, split, fun q member => ?_⟩
  obtain ⟨longer, different⟩ := ordered.2.2 q member p List.mem_cons_self
  rw [Bool.not_eq_true', ← Bool.not_eq_true, List.isPrefixOf_iff_prefix]
  intro isPrefix
  obtain ⟨more, same⟩ := List.prefix_of_prefix_length_le (List.prefix_append p.spelling rest) isPrefix longer
  obtain _ | ⟨b, more⟩ := more
  · rw [List.append_nil] at same
    exact different same.symm
  · rw [← same, List.prefix_append_right_inj] at isPrefix
    obtain ⟨last, rfl⟩ := isPrefix
    refine apart b rfl (List.mem_append_left _ (List.mem_filterMap.mpr ⟨q, List.mem_filter.mpr ⟨?_, ?_⟩, ?_⟩))
    · exact split ▸ List.mem_append_left _ member
    · rw [List.isPrefixOf_iff_prefix, ← same]
      exact List.prefix_append _ _
    · rw [← same]
      simp

end Punct

/-- A visible byte starts no trivia, unless it is a slash that starts a comment or a wide blank. -/
theorem Trivia.piece?_visible {b : UInt8} {rest : Bytes} (noBlank : ¬ (b = 0x20 ∨ b = 0x09 ∨ b = 0x0B ∨ b = 0x0C))
    (noLine : ¬ (b = 0x0A ∨ b = 0x0D)) (noComment : b = 0x2F → ∀ next ∈ rest.head?, next ≠ 0x2F ∧ next ≠ 0x2A) :
    piece? (b :: rest) = if b < 0x80 then none else wideBlank? (b :: rest) := by
  simp only [piece?, if_neg noBlank, if_neg noLine]
  split
  · rename_i isSlash
    rw [if_pos (isSlash ▸ by decide)]
    split
    · exact absurd rfl (noComment isSlash _ rfl).1
    · exact absurd rfl (noComment isSlash _ rfl).2
    · rfl
  · rfl

/-- A number starts with a digit, or with a point and a digit. -/
theorem Number.IsSpelling.exists_head {spelling : Bytes} (isSpelling : IsSpelling spelling) : ∃ b tail,
    spelling = b :: tail ∧
      (Bytes.isDigit b = true ∨ b = 0x2E ∧ ∃ digit behind, tail = digit :: behind ∧ Bytes.isDigit digit = true) := by
  cases isSpelling with
  | hex => exact ⟨_, _, rfl, .inl rfl⟩
  | @decimal mantissa exponent isMantissa _ =>
    cases isMantissa with
    | whole nonempty all =>
      obtain _ | ⟨b, digits⟩ := mantissa
      · exact absurd rfl nonempty
      · exact ⟨b, _, rfl, .inl (all b List.mem_cons_self)⟩
    | @point whole fraction nonempty allWhole allFraction =>
      obtain _ | ⟨b, digits⟩ := whole
      · obtain _ | ⟨digit, digits⟩ := fraction
        · simp at nonempty
        · exact ⟨0x2E, _, rfl, .inr ⟨rfl, digit, _, rfl, allFraction digit List.mem_cons_self⟩⟩
      · exact ⟨b, _, rfl, .inl (allWhole b List.mem_cons_self)⟩

theorem Number.piece?_eq_none {spelling : Bytes} (isSpelling : IsSpelling spelling) (rest : Bytes) :
    Trivia.piece? (spelling ++ rest) = none := by
  obtain ⟨b, tail, rfl, first⟩ := isSpelling.exists_head
  have table : ∀ b : UInt8, Bytes.isDigit b = true ∨ b = 0x2E → ¬ (b = 0x20 ∨ b = 0x09 ∨ b = 0x0B ∨ b = 0x0C) ∧
      ¬ (b = 0x0A ∨ b = 0x0D) ∧ b ≠ 0x2F ∧ b < 0x80 := by
    refine Bytes.forall_byte ?_
    decide +kernel
  obtain ⟨noBlank, noLine, noSlash, ascii⟩ := table b (first.imp_right And.left)
  rw [List.cons_append, Trivia.piece?_visible noBlank noLine fun isSlash => absurd isSlash noSlash, if_pos ascii]

theorem Number.read?_eq_none {b : UInt8} {rest : Bytes} (noDigit : Bytes.isDigit b = false)
    (noPoint : b = 0x2E → ∀ digit ∈ rest.head?, Bytes.isDigit digit = false) : read? (b :: rest) = none := by
  cases found : read? (b :: rest) with
  | none => rfl
  | some number =>
    obtain ⟨isSpelling, -, -, tail, same, -⟩ := read?_eq_some found
    obtain ⟨b', tail', spelled, isDigit | ⟨isPoint, digit, behind, rfl, isDigit⟩⟩ := isSpelling.exists_head
    · rw [spelled] at same
      cases same
      rw [isDigit] at noDigit
      cases noDigit
    · rw [spelled] at same
      cases same
      rw [noPoint isPoint digit rfl] at isDigit
      cases isDigit

theorem StringLiteral.read?_eq_none {b : UInt8} {rest : Bytes} (noDouble : b ≠ 0x22) (noSingle : b ≠ 0x27) :
    read? (b :: rest) = none := by
  rw [read?, if_neg (by simp [noDouble, noSingle])]

namespace Name

/-- A name starts with a character that is no white space. -/
theorem isStart_eq_false_of_blank {c : Char}
    (blank : (c = '\u2028' ∨ c = '\u2029') ∨ c = '\u00A0' ∨ c = '\uFEFF' ∨ Category.isSpaceSeparator c = true) :
    isStart c = false := by
  have table : ∀ n ∈ [0x20, 0xA0, 0x1680, 0x2000, 0x2001, 0x2002, 0x2003, 0x2004, 0x2005, 0x2006, 0x2007, 0x2008,
      0x2009, 0x200A, 0x2028, 0x2029, 0x202F, 0x205F, 0x3000, 0xFEFF], isStart (Char.ofNat n) = false := by
    decide +kernel
  rcases blank with (rfl | rfl) | rfl | rfl | separator
  · exact table 0x2028 (by decide)
  · exact table 0x2029 (by decide)
  · exact table 0xA0 (by decide)
  · exact table 0xFEFF (by decide)
  · have holds := table c.toNat ?_
    · rwa [Char.ofNat_toNat] at holds
    · simp only [Category.isSpaceSeparator, Category.spaceSeparators, Ranges.contains] at separator
      simp only [List.mem_cons, List.not_mem_nil, or_false]
      grind

/-- The first character of a name, in front of any bytes. -/
theorem exists_start {text : Bytes} (spelling : IsSpelling text) (rest : Bytes) : ∃ b tail c width,
    text ++ rest = b :: tail ∧ Utf8.decode? (b :: tail) = some (c, width) ∧ isStart c = true ∧
      (b < 0x80 → isStart (Char.ofNat b.toNat) = true) := by
  obtain ⟨c, chars, start, -, rfl⟩ := spelling
  have decoded : Utf8.decode? ((c :: chars).flatMap Utf8.encode ++ rest) = some (c, (Utf8.encode c).length) := by
    rw [List.flatMap_cons, List.append_assoc, Utf8.decode?_encode]
  cases bytes : (c :: chars).flatMap Utf8.encode ++ rest with
  | nil =>
    rw [bytes] at decoded
    cases decoded
  | cons b tail =>
    rw [bytes] at decoded
    refine ⟨b, tail, c, _, rfl, decoded, start, fun ascii => ?_⟩
    rw [Utf8.decode?_ascii tail ascii, Option.some.injEq, Prod.mk.injEq] at decoded
    rwa [decoded.1]

/-- A byte that can start a name starts no trivia, number or string, and no operator goes on with it. -/
theorem byte_of_start {b : UInt8} (start : b < 0x80 → isStart (Char.ofNat b.toNat) = true) :
    Bytes.isDigit b = false ∧ (¬ (b = 0x20 ∨ b = 0x09 ∨ b = 0x0B ∨ b = 0x0C) ∧ ¬ (b = 0x0A ∨ b = 0x0D) ∧ b ≠ 0x2F) ∧
      (b ≠ 0x2E ∧ b ≠ 0x22 ∧ b ≠ 0x27) ∧ b ≠ 0x3D ∧ b ≠ 0x2B ∧ b ≠ 0x2D := by
  have table : ∀ b : UInt8, (b < 0x80 → isStart (Char.ofNat b.toNat) = true) → Bytes.isDigit b = false ∧
      b ∉ [0x20, 0x09, 0x0B, 0x0C, 0x0A, 0x0D, 0x2F, 0x2E, 0x22, 0x27, 0x3D, 0x2B, 0x2D] := by
    refine Bytes.forall_byte ?_
    decide +kernel
  simpa [and_assoc] using table b start

/-- A name starts with no digit and with no byte that an operator goes on with. -/
theorem head_of_spelling {text rest : Bytes} (spelling : IsSpelling text) : ∀ b ∈ (text ++ rest).head?,
    Bytes.isDigit b = false ∧ b ≠ 0x3D ∧ b ≠ 0x2B ∧ b ≠ 0x2D := by
  obtain ⟨b, tail, c, width, same, -, -, startByte⟩ := exists_start spelling rest
  obtain ⟨noDigit, -, -, noOperator⟩ := byte_of_start startByte
  rw [same]
  rintro _ ⟨⟩
  exact ⟨noDigit, noOperator⟩

theorem piece?_eq_none {text : Bytes} (spelling : IsSpelling text) (rest : Bytes) :
    Trivia.piece? (text ++ rest) = none := by
  obtain ⟨b, tail, c, width, same, decoded, start, startByte⟩ := exists_start spelling rest
  obtain ⟨-, ⟨noBlank, noLine, noSlash⟩, -⟩ := byte_of_start startByte
  rw [same, Trivia.piece?_visible noBlank noLine fun isSlash => absurd isSlash noSlash]
  split
  · rfl
  · have visible := fun blank => Bool.false_ne_true ((isStart_eq_false_of_blank blank).symm.trans start)
    rw [Trivia.wideBlank?, decoded]
    exact (if_neg fun line => visible (.inl line)).trans (if_neg fun blank => visible (.inr blank))

/-- What starts a name is no number and no string. -/
theorem read_of_spelling {text : Bytes} (spelling : IsSpelling text) (rest : Bytes) :
    Number.read? (text ++ rest) = none ∧ StringLiteral.read? (text ++ rest) = none := by
  obtain ⟨b, tail, c, width, same, -, -, startByte⟩ := exists_start spelling rest
  obtain ⟨noDigit, -, ⟨noPoint, noDouble, noSingle⟩, -⟩ := byte_of_start startByte
  rw [same]
  exact ⟨Number.read?_eq_none noDigit fun isPoint => absurd isPoint noPoint,
    StringLiteral.read?_eq_none noDouble noSingle⟩

theorem read?_eq_none {b : UInt8} (rest : Bytes) (ascii : b < 0x80)
    (noStart : isStart (Char.ofNat b.toNat) = false) : read? (b :: rest) = none := by
  have empty : width (b :: rest) = 0 := by
    rw [width, Utf8.decode?_ascii rest ascii]
    exact if_neg (by simp [noStart])
  rw [read?, if_pos empty]

end Name

namespace Token

/-- The token is read back from its spelling in front of the bytes. -/
def ReadsBack (t : Token) (rest : Bytes) : Prop :=
  Trivia.piece? (t.spelling ++ rest) = none ∧ read (t.spelling ++ rest) = (t, t.spelling.length)

theorem punct_readsBack {p : Punct} {rest : Bytes} (apart : ∀ b ∈ rest.head?, b ∉ p.joins) :
    (punct p).ReadsBack rest := by
  obtain ⟨b, tail, spelled, first⟩ := p.exists_head
  have longest := Punct.longest?_append apart
  have noNumber : Number.read? (p.spelling ++ rest) = none := by
    rw [spelled]
    refine Number.read?_eq_none first.noDigit fun isPoint digit next => ?_
    obtain rfl := first.point isPoint
    obtain rfl : tail = [] := (List.cons.inj spelled).2.symm
    rw [← Bool.not_eq_true]
    exact fun isDigit => apart digit next (List.mem_append_right _ (Bytes.mem_digits isDigit))
  have noString : StringLiteral.read? (p.spelling ++ rest) = none := by
    rw [spelled]
    exact StringLiteral.read?_eq_none first.noDouble first.noSingle
  have noName : Name.read? (p.spelling ++ rest) = none := by
    rw [spelled]
    exact Name.read?_eq_none _ first.ascii first.noStart
  refine ⟨?_, by rw [read, spelling, noNumber, noString, noName, longest]⟩
  rw [spelling, spelled, List.cons_append, Trivia.piece?_visible first.noBlank first.noLine, if_pos first.ascii]
  intro isSlash next behind
  rcases first.slash isSlash with rfl | rfl
  · obtain rfl : tail = [] := (List.cons.inj spelled).2.symm
    have other := apart next behind
    refine ⟨?_, ?_⟩ <;> (rintro rfl; exact other (by decide))
  · obtain rfl : tail = [0x3D] := (List.cons.inj spelled).2.symm
    cases behind
    decide

theorem spelling_ofName (spelling : Bytes) : (ofName spelling).spelling = spelling := by
  unfold ofName
  split
  · rename_i found
    exact Word.spelling_of_ofSpelling? found
  · rfl

/-- A name or a reserved word is read back unless a name goes on behind it. -/
theorem ofName_readsBack {spelling rest : Bytes} (spelled : Name.read? spelling = some spelling)
    (stops : Name.goesOn rest = false) : (ofName spelling).ReadsBack rest := by
  have isSpelling := (Name.read?_eq_some spelled).1
  have found := Name.read?_append isSpelling stops
  obtain ⟨noNumber, noString⟩ := Name.read_of_spelling isSpelling rest
  rw [ReadsBack, spelling_ofName]
  exact ⟨Name.piece?_eq_none isSpelling rest, by rw [read, noNumber, noString, found]⟩

theorem keyword_readsBack (w : Word) {rest : Bytes} (stops : Name.goesOn rest = false) :
    (keyword w).ReadsBack rest := by
  have back := ofName_readsBack w.read?_spelling stops
  rwa [ofName, w.ofSpelling?_spelling] at back

theorem name_readsBack {spelling rest : Bytes} (identifier : Name.identifier? spelling = some spelling)
    (stops : Name.goesOn rest = false) : (name spelling).ReadsBack rest := by
  obtain ⟨spelled, free⟩ := Option.filter_eq_some_iff.mp identifier
  have back := ofName_readsBack spelled stops
  rwa [ofName, Option.isNone_iff_eq_none.mp free] at back

theorem number_readsBack {value : Number} {rest : Bytes} (clean : Number.read? value.raw = some value)
    (stops : Name.goesOn rest = false) (noPoint : Layout.takesPoint value = true → ∀ b ∈ rest.head?, b ≠ 0x2E) :
    (number value).ReadsBack rest := by
  have found := Number.read?_append clean stops noPoint
  exact ⟨Number.piece?_eq_none (Number.read?_eq_some clean).1 rest, by rw [read, spelling, found]⟩

theorem string_readsBack {value : Bytes} (valid : Utf8.isValid value = true) (rest : Bytes) :
    (string value).ReadsBack rest := by
  have found := StringLiteral.read?_literal valid rest
  refine ⟨rfl, ?_⟩
  have noNumber : Number.read? (Quoted.literal value ++ rest) = none :=
    Number.read?_eq_none (by decide) (fun isPoint => absurd isPoint (by decide))
  rw [read, spelling, noNumber, found]

end Token

/-- A token that is read back is the next mark. -/
theorem Lexeme.marks_readsBack {t : Token} {rest : Bytes} (back : t.ReadsBack rest) (newline : Bool) :
    marks newline (t.spelling ++ rest) = (t, newline) :: marks false rest := by
  obtain ⟨noTrivia, found⟩ := back
  cases spelled : t.spelling with
  | nil =>
    -- What is read takes room.
    rw [spelled, List.nil_append] at found
    cases rest with
    | nil => cases found
    | cons b tail =>
      have positive := Token.read_width_pos b tail
      rw [found] at positive
      cases positive
  | cons b tail =>
    rw [spelled, List.cons_append] at noTrivia found
    rw [List.cons_append, marks_of_token noTrivia, found, List.length_cons, Nat.add_sub_cancel, List.drop_left]

end EcmaFold
