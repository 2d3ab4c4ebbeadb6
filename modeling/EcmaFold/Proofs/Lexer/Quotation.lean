import EcmaFold.Lexer.StringLiteral
import EcmaFold.Proofs.Text.Utf8
import EcmaFold.Text.Quoted

/-!
String literals read back. A text written as a literal is decoded whatever stands behind the closing quote: to the same
text if it is valid, and otherwise to the text with its bad bytes replaced.
-/

namespace EcmaFold

namespace Utf8

theorem runesFrom_pending (pending : Nat) (bytes : Bytes) :
    runesFrom pending bytes = runesFrom 0 (bytes.drop pending) := by
  induction pending generalizing bytes with
  | zero => rw [List.drop_zero]
  | succ pending ih =>
    cases bytes with
    | nil => rfl
    | cons b rest => exact ih rest

/-- One more character in front. -/
theorem runes_encode (c : Char) (rest : Bytes) : ∃ b, runes (encode c ++ rest) = (some c, b) :: runes rest := by
  have positive := encode_length_pos c
  have decoded := decode?_encode c rest
  cases bytes : encode c with
  | nil => simp [bytes] at positive
  | cons b tail =>
    rw [bytes, List.cons_append] at decoded
    refine ⟨b, ?_⟩
    rw [List.cons_append, runes, runesFrom, decoded]
    simp only [List.length_cons, Nat.add_sub_cancel]
    rw [runesFrom_pending, List.drop_left, runes]

/-- The text with the replacement character in place of each bad byte. -/
def mended (text : Bytes) : Bytes := (chars text).flatMap encode

/-- A valid text is spelled by its characters. -/
theorem mended_of_isValid {text : Bytes} (valid : isValid text = true) : mended text = text := by
  generalize length : text.length = n
  induction n using Nat.strongRecOn generalizing text with
  | _ n ih =>
    cases decoded : decode? text with
    | none =>
      cases text with
      | nil => rfl
      | cons b rest => simp [isValid, runes, runesFrom, decoded] at valid
    | some found =>
      obtain ⟨tail, rfl, -⟩ := decode?_eq_some decoded
      have positive := encode_length_pos found.1
      obtain ⟨b, step⟩ := runes_encode found.1 tail
      rw [isValid, step, List.all_cons, Bool.and_eq_true] at valid
      rw [List.length_append] at length
      rw [mended, chars, step, List.map_cons, List.flatMap_cons]
      exact congrArg (encode found.1 ++ ·) (ih tail.length (by omega) valid.2 rfl)

theorem isValid_mended (text : Bytes) : isValid (mended text) = true := by
  rw [mended]
  induction chars text with
  | nil => rfl
  | cons c more ih =>
    obtain ⟨b, step⟩ := runes_encode c (more.flatMap encode)
    rw [List.flatMap_cons, isValid, step, List.all_cons]
    exact ih

/-- Exactly the valid texts have nothing to mend. -/
theorem mended_eq_self_iff {text : Bytes} : mended text = text ↔ isValid text = true :=
  ⟨fun same => same ▸ isValid_mended text, mended_of_isValid⟩

end Utf8

/-! Line terminators -/

theorem lineTerminator?_eq_none {b : UInt8} (rest : Bytes) (noFeed : b ≠ 0x0A) (noReturn : b ≠ 0x0D)
    (noWide : b ≠ 0xE2) : lineTerminator? (b :: rest) = none := by
  unfold lineTerminator?
  split
  · rename_i same
    exact absurd (List.cons.inj same).1 noFeed
  · rename_i same
    exact absurd (List.cons.inj same).1 noReturn
  · rename_i same
    exact absurd (List.cons.inj same).1 noReturn
  · rename_i same
    exact absurd (List.cons.inj same).1 noWide
  · rename_i same
    exact absurd (List.cons.inj same).1 noWide
  · rfl

theorem lineTerminator?_cons (b : UInt8) (rest : Bytes) : lineTerminator? (b :: rest) =
    if b = 0x0A then some 1
    else if b = 0x0D then if rest.head? = some 0x0A then some 2 else some 1
    else if b = 0xE2 ∧ (rest.take 2 = [0x80, 0xA8] ∨ rest.take 2 = [0x80, 0xA9]) then some 3
    else none := by
  by_cases feed : b = 0x0A
  · subst feed
    rfl
  by_cases carriage : b = 0x0D
  · subst carriage
    cases rest with
    | nil => rfl
    | cons next rest =>
      by_cases pair : next = 0x0A
      · subst pair
        rfl
      · simp [lineTerminator?, pair]
  by_cases wide : b = 0xE2
  · subst wide
    obtain _ | ⟨second, _ | ⟨third, rest⟩⟩ := rest
    · rfl
    · simp [lineTerminator?]
    · by_cases same : second = 0x80 ∧ (third = 0xA8 ∨ third = 0xA9)
      · obtain ⟨rfl, rfl | rfl⟩ := same <;> rfl
      · have other : ¬ (second = 0x80 ∧ third = 0xA8 ∨ second = 0x80 ∧ third = 0xA9) := by
          rintro (⟨first, last⟩ | ⟨first, last⟩)
          · exact same ⟨first, .inl last⟩
          · exact same ⟨first, .inr last⟩
        unfold lineTerminator?
        split <;> simp_all
  · rw [lineTerminator?_eq_none rest feed carriage wide, if_neg feed, if_neg carriage,
      if_neg fun both => wide both.1]

namespace StringLiteral

open Quoted

/-- What one more piece of the body adds to the value and to the width. -/
def extend (value : Bytes) (width : Nat) (rest : Bytes × Nat) : Bytes × Nat := (value ++ rest.1, rest.2 + width)

theorem bodyFrom_pending (quote : UInt8) (taken rest : Bytes) :
    bodyFrom quote taken.length (taken ++ rest) = (bodyFrom quote 0 rest).map (extend [] taken.length) := by
  induction taken with
  | nil =>
    cases body : bodyFrom quote 0 rest <;> simp [body, extend]
  | cons b taken ih =>
    rw [List.cons_append, List.length_cons, bodyFrom, ih, Option.map_map]
    rfl

/-- An escape adds what it stands for. -/
theorem bodyFrom_escape {quote : UInt8} (other : quote ≠ 0x5C) {escape decoded : Bytes} (rest : Bytes)
    (found : escape? (escape ++ rest) = some (decoded, escape.length)) :
    bodyFrom quote 0 (0x5C :: escape ++ rest) =
      (bodyFrom quote 0 rest).map (extend decoded (0x5C :: escape).length) := by
  have noTerminator : atLineTerminator (0x5C :: (escape ++ rest)) = false := rfl
  rw [List.cons_append, bodyFrom, noTerminator, if_neg Bool.false_ne_true, if_neg other.symm, if_pos rfl, found]
  simp only [bodyFrom_pending, Option.map_map]
  rfl

theorem bodyFrom_self {quote b : UInt8} {rest : Bytes} (inLine : atLineTerminator (b :: rest) = false)
    (noQuote : b ≠ quote) (noSlash : b ≠ 0x5C) :
    bodyFrom quote 0 (b :: rest) = (bodyFrom quote 0 rest).map (extend [b] 1) := by
  rw [bodyFrom, inLine, if_neg Bool.false_ne_true, if_neg noQuote, if_neg noSlash]
  rfl

/-- The byte stands for itself in a literal. -/
def IsInert (b : UInt8) (rest : Bytes) : Prop :=
  lineTerminator? (b :: rest) = none ∧ b ≠ 0x22 ∧ b ≠ 0x5C

theorem bodyFrom_inert {b : UInt8} {rest : Bytes} (inert : IsInert b rest) :
    bodyFrom 0x22 0 (b :: rest) = (bodyFrom 0x22 0 rest).map (extend [b] 1) :=
  bodyFrom_self (by rw [atLineTerminator, inert.1]; rfl) inert.2.1 inert.2.2

theorem isInert_of_wide {b : UInt8} (rest : Bytes) (wide : 0x80 ≤ b) (other : b ≠ 0xE2) : IsInert b rest := by
  refine ⟨lineTerminator?_eq_none rest ?_ ?_ other, ?_, ?_⟩ <;> (rintro rfl; exact absurd wide (by decide))

theorem bodyFrom_inerts {b : UInt8} {bytes value rest : Bytes} {width : Nat} (inert : IsInert b (bytes ++ rest))
    (behind : bodyFrom 0x22 0 (bytes ++ rest) = (bodyFrom 0x22 0 rest).map (extend value width)) :
    bodyFrom 0x22 0 (b :: bytes ++ rest) = (bodyFrom 0x22 0 rest).map (extend (b :: value) (width + 1)) := by
  rw [List.cons_append, bodyFrom_inert inert, behind, Option.map_map]
  rfl

/-- A byte that goes on with a character stands for itself. -/
theorem isInert_continuing {n : Nat} (small : n < 64) (rest : Bytes) : IsInert (UInt8.ofNat (n + 0x80)) rest := by
  have value : (UInt8.ofNat (n + 0x80)).toNat = n + 0x80 := UInt8.toNat_ofNat_of_lt' (show n + 0x80 < 256 by omega)
  refine isInert_of_wide rest ?_ ?_
  · rw [UInt8.le_iff_toNat_le, value]
    exact Nat.le_add_left _ _
  · intro same
    rw [same] at value
    have : (0xE2 : UInt8).toNat = 226 := rfl
    omega

/-- A byte that begins a wide character stands for itself, unless a separator may begin with it. -/
theorem isInert_leading {n : Nat} (least : 0xC0 ≤ n) (most : n < 0x100) (other : n ≠ 0xE2) (rest : Bytes) :
    IsInert (UInt8.ofNat n) rest := by
  have value : (UInt8.ofNat n).toNat = n := UInt8.toNat_ofNat_of_lt' most
  refine isInert_of_wide rest ?_ ?_
  · rw [UInt8.le_iff_toNat_le, value]
    exact Nat.le_trans (by decide) least
  · intro same
    rw [same] at value
    exact other value.symm

theorem isInert_ascii {n : Nat} (visible : 0x20 ≤ n) (ascii : n < 0x80) (noQuote : n ≠ 0x22) (noSlash : n ≠ 0x5C)
    (rest : Bytes) : IsInert (UInt8.ofNat n) rest := by
  have value : (UInt8.ofNat n).toNat = n := UInt8.toNat_ofNat_of_lt' (show n < 256 by omega)
  have other : ∀ b : UInt8, n ≠ b.toNat → UInt8.ofNat n ≠ b := by
    rintro b different rfl
    exact different value.symm
  have noFeed : n ≠ 0x0A := by omega
  have noReturn : n ≠ 0x0D := by omega
  have noWide : n ≠ 0xE2 := by omega
  exact ⟨lineTerminator?_eq_none rest (other _ noFeed) (other _ noReturn) (other _ noWide), other _ noQuote,
    other _ noSlash⟩

/-- The line and the paragraph separator begin with this byte; in front of what belongs to another character it stands
for itself. -/
theorem isInert_separator {second third : Nat} (rest : Bytes) (small : second < 64) (small' : third < 64)
    (other : ¬ (second = 0 ∧ (third = 0x28 ∨ third = 0x29))) :
    IsInert 0xE2 (UInt8.ofNat (second + 0x80) :: UInt8.ofNat (third + 0x80) :: rest) := by
  have code : ∀ n < 64, ∀ b : UInt8, UInt8.ofNat (n + 0x80) = b → n + 0x80 = b.toNat := by
    rintro n small _ rfl
    exact (UInt8.toNat_ofNat_of_lt' (show n + 0x80 < 256 by omega)).symm
  refine ⟨?_, by decide, by decide⟩
  rw [lineTerminator?_cons, if_neg (by decide), if_neg (by decide), if_neg]
  rintro ⟨-, line | paragraph⟩
  · have bytes := List.cons.inj line
    have second : second + 0x80 = 0x80 := code _ small _ bytes.1
    have third : third + 0x80 = 0xA8 := code _ small' _ (List.cons.inj bytes.2).1
    omega
  · have bytes := List.cons.inj paragraph
    have second : second + 0x80 = 0x80 := code _ small _ bytes.1
    have third : third + 0x80 = 0xA9 := code _ small' _ (List.cons.inj bytes.2).1
    omega

/-- The bytes of a character that needs no escape stand for themselves. -/
theorem bodyFrom_encode {c : Char} (rest : Bytes) (visible : 0x20 ≤ c.toNat) (noQuote : c ≠ '"') (noSlash : c ≠ '\\')
    (noLine : c ≠ '\u2028') (noParagraph : c ≠ '\u2029') :
    bodyFrom 0x22 0 (Utf8.encode c ++ rest) =
      (bodyFrom 0x22 0 rest).map (extend (Utf8.encode c) (Utf8.encode c).length) := by
  have none : bodyFrom 0x22 0 ([] ++ rest) = (bodyFrom 0x22 0 rest).map (extend [] 0) := bodyFrom_pending 0x22 [] rest
  have differs : ∀ d : Char, c ≠ d → c.toNat ≠ d.toNat := fun d other same => other (Char.toNat_inj.mp same)
  by_cases one : c.toNat < 0x80
  · rw [Utf8.encode_one one]
    exact bodyFrom_inerts (isInert_ascii visible one (differs '"' noQuote) (differs '\\' noSlash) _) none
  by_cases two : c.toNat < 0x800
  · rw [Utf8.encode_two (by omega) two]
    refine bodyFrom_inerts (isInert_leading (by omega) (by omega) (by omega) _) ?_
    exact bodyFrom_inerts (isInert_continuing (by omega) _) none
  by_cases three : c.toNat < 0x10000
  · rw [Utf8.encode_three (by omega) three]
    refine bodyFrom_inerts ?_ (bodyFrom_inerts (isInert_continuing (by omega) _)
      (bodyFrom_inerts (isInert_continuing (by omega) _) none))
    by_cases wide : c.toNat / 4096 % 16 + 0xE0 = 0xE2
    · have line : c.toNat ≠ 0x2028 := differs _ noLine
      have paragraph : c.toNat ≠ 0x2029 := differs _ noParagraph
      rw [wide]
      exact isInert_separator _ (by omega) (by omega) (by omega)
    · exact isInert_leading (by omega) (by omega) wide _
  · rw [Utf8.encode_four (by omega)]
    refine bodyFrom_inerts (isInert_leading (by omega) (by omega) (by omega) _) ?_
    refine bodyFrom_inerts (isInert_continuing (by omega) _) (bodyFrom_inerts (isInert_continuing (by omega) _) ?_)
    exact bodyFrom_inerts (isInert_continuing (by omega) _) none

/-- A control character is escaped by its number. -/
theorem escape?_control {c : Char} (small : c.toNat < 0x80) (rest : Bytes) :
    escape? ((0x78 :: Bytes.hex 2 c.toNat) ++ rest) = some (Utf8.encode c, (0x78 :: Bytes.hex 2 c.toNat).length) := by
  have digits : ∀ n < 0x80, hexCode? (Bytes.hex 2 n) = some n := by decide
  have code : codeEscape? 2 (Bytes.hex 2 c.toNat ++ rest) = some (Utf8.encode c, 3) := by
    have two : (Bytes.hex 2 c.toNat ++ rest).take 2 = Bytes.hex 2 c.toNat := rfl
    simp only [codeEscape?, two, digits _ small, Option.map_some, Utf8.encodeCode,
      Utf8.scalar?_toNat (Nat.zero_le _), Option.getD_some]
    rfl
  exact code

theorem exists_shortEscape {c : Char} {escape : Bytes} (short : shortEscape? c = some escape) :
    ∃ behind, escape = 0x5C :: behind ∧ ∀ rest, escape? (behind ++ rest) = some (Utf8.encode c, behind.length) := by
  unfold shortEscape? at short
  split at short
  · exact ⟨utf8 "\"", (Option.some.inj short).symm, fun rest => rfl⟩
  · exact ⟨utf8 "\\", (Option.some.inj short).symm, fun rest => rfl⟩
  · exact ⟨utf8 "n", (Option.some.inj short).symm, fun rest => rfl⟩
  · exact ⟨utf8 "r", (Option.some.inj short).symm, fun rest => rfl⟩
  · exact ⟨utf8 "t", (Option.some.inj short).symm, fun rest => rfl⟩
  · exact ⟨utf8 "b", (Option.some.inj short).symm, fun rest => rfl⟩
  · exact ⟨utf8 "f", (Option.some.inj short).symm, fun rest => rfl⟩
  · exact ⟨utf8 "v", (Option.some.inj short).symm, fun rest => rfl⟩
  · cases short

/-- Each character of a literal is read back. -/
theorem bodyFrom_literalChar (c : Char) (rest : Bytes) :
    bodyFrom 0x22 0 (literalChar c ++ rest) =
      (bodyFrom 0x22 0 rest).map (extend (Utf8.encode c) (literalChar c).length) := by
  unfold literalChar
  split
  · rename_i escape short
    obtain ⟨behind, rfl, found⟩ := exists_shortEscape short
    exact bodyFrom_escape (by decide) rest (found rest)
  · rename_i plain
    split
    · rename_i line
      subst line
      have found : escape? (utf8 "u2028" ++ rest) = some (Utf8.encode '\u2028', 5) := rfl
      exact bodyFrom_escape (by decide) rest found
    · split
      · rename_i paragraph
        subst paragraph
        have found : escape? (utf8 "u2029" ++ rest) = some (Utf8.encode '\u2029', 5) := rfl
        exact bodyFrom_escape (by decide) rest found
      · split
        · rename_i control
          exact bodyFrom_escape (by decide) rest (escape?_control (by omega) rest)
        · rename_i noLine noParagraph visible
          refine bodyFrom_encode rest (by omega) ?_ ?_ noLine noParagraph
          · rintro rfl
            cases plain
          · rintro rfl
            cases plain

theorem bodyFrom_chars (chars : List Char) (rest : Bytes) :
    bodyFrom 0x22 0 (chars.flatMap literalChar ++ 0x22 :: rest) =
      some (chars.flatMap Utf8.encode, (chars.flatMap literalChar).length + 1) := by
  induction chars with
  | nil => rfl
  | cons c chars ih =>
    rw [List.flatMap_cons, List.append_assoc, bodyFrom_literalChar, ih, Option.map_some, extend, List.flatMap_cons,
      List.length_append]
    congr 2
    omega

/-- A text is read back from its literal as far as it consists of characters. -/
theorem read?_literal_append (text rest : Bytes) :
    read? (literal text ++ rest) = some (Utf8.mended text, (literal text).length) := by
  simp only [literal, List.cons_append, List.append_assoc, List.nil_append]
  rw [read?, if_pos (.inl rfl), bodyFrom_chars, ← Utf8.mended]
  simp

/-- A valid text is read back from its literal. -/
theorem read?_literal {text : Bytes} (valid : Utf8.isValid text = true) (rest : Bytes) :
    read? (literal text ++ rest) = some (text, (literal text).length) := by
  rw [read?_literal_append, Utf8.mended_of_isValid valid]

end StringLiteral

end EcmaFold
