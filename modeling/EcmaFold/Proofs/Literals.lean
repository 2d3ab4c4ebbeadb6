import EcmaFold.Proofs.Lexer.Quotation
import EcmaFold.Proofs.Rejection

/-!
Literals of any text. What is written as a literal is read as one literal, up to its last byte, and its value is the
text if and only if the text is valid. A bad byte could stand in a literal as it is, but it is not written so.
-/

namespace EcmaFold

open Quoted (literal)

/-- The literal of a text is always read as a whole. It gives the text with the replacement character in place of each
bad byte, which is the text itself for valid texts and for no others. -/
theorem Scanner.stringLiteral?_literal (text : Bytes) :
    (ofSource (literal text)).stringLiteral? =
        some (Utf8.mended text, ⟨literal text, (literal text).length⟩) ∧
      (Utf8.mended text = text ↔ Utf8.isValid text = true) := by
  refine ⟨?_, Utf8.mended_eq_self_iff⟩
  have first : (ofSource (literal text)).skip = ofSource (literal text) := skip_eq_self rfl
  have found : StringLiteral.read? (literal text) = some (Utf8.mended text, (literal text).length) := by
    simpa only [List.append_nil] using StringLiteral.read?_literal_append text []
  rw [stringLiteral?, rule, first, show (ofSource (literal text)).rest = literal text from rfl, found]
  simp [advance, moveTo, ofSource]

/-- The byte 0xFF is no character. Its literal is read as the replacement character, although a literal with the byte
itself between the quotes is read as that byte. -/
theorem Scanner.stringLiteral?_literal_badByte :
    (ofSource (literal [0xFF])).stringLiteral? = some (utf8 "\uFFFD", ⟨literal [0xFF], 5⟩) ∧ utf8 "\uFFFD" ≠ [0xFF] ∧
      (ofSource [0x22, 0xFF, 0x22]).stringLiteral? = some ([0xFF], ⟨[0x22, 0xFF, 0x22], 3⟩) :=
  ⟨rfl, by decide, rfl⟩

end EcmaFold
