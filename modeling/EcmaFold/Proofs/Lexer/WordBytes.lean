import EcmaFold.Proofs.Lexer.Lookahead

/-!
The bytes of names and numbers. No quote, bracket, slash, blank or line end is one of them.
-/

namespace EcmaFold

namespace Bytes

/-- A byte of a name or a number: a letter, a digit, one of `$`, `_`, `.`, `+` and `-`, or no ASCII. -/
def isWordByte (b : UInt8) : Bool :=
  0x61 ≤ b && b ≤ 0x7A || 0x41 ≤ b && b ≤ 0x5A || isDigit b || b ∈ utf8 "$_.+-" || 0x80 ≤ b

theorem isWordByte_of_digit {b : UInt8} (digit : isDigit b = true) : isWordByte b = true := by
  simp [isWordByte, digit]

theorem isWordByte_of_wide {b : UInt8} (wide : 0x80 ≤ b) : isWordByte b = true := by
  simp [isWordByte, wide]

theorem isWordByte_of_hexDigit {b : UInt8} (digit : isHexDigit b = true) : isWordByte b = true := by
  have table : ∀ b : UInt8, isHexDigit b = true → isWordByte b = true := by
    refine forall_byte ?_
    decide +kernel
  exact table b digit

end Bytes

open Bytes

/-- A character beyond ASCII has no ASCII byte. -/
theorem Utf8.encode_wide {c : Char} (wide : ¬ c.toNat < 0x80) : ∀ b ∈ encode c, 0x80 ≤ b := by
  cases bytes : encode c with
  | nil => exact List.forall_mem_nil _
  | cons first more =>
    refine List.forall_mem_cons.mpr ⟨?_, wide_of_encode bytes⟩
    refine UInt8.not_lt.mp fun ascii => wide ?_
    have decoded := decode?_encode c []
    rw [bytes, List.append_nil, decode?_ascii more ascii] at decoded
    have small : first.toNat < 128 := ascii
    have code : (Char.ofNat first.toNat).toNat = first.toNat := by
      rw [Char.ofNat, dif_pos (.inl (by omega))]
      rfl
    rw [← (Prod.mk.inj (Option.some.inj decoded)).1, code]
    exact small

namespace Name

/-- The characters of a name are written with word bytes. -/
theorem isWordByte_of_isPart {c : Char} (part : isPart c = true) : ∀ b ∈ Utf8.encode c, isWordByte b = true := by
  have table : ∀ n < 128, isPart (Char.ofNat n) = true → isWordByte (UInt8.ofNat n) = true := by decide +kernel
  by_cases ascii : c.toNat < 0x80
  · rw [Utf8.encode_one ascii, List.forall_mem_singleton]
    refine table c.toNat ascii ?_
    rwa [Char.ofNat_toNat]
  · exact fun b member => isWordByte_of_wide (Utf8.encode_wide ascii b member)

theorem IsSpelling.isWordByte {text : Bytes} (spelling : IsSpelling text) : ∀ b ∈ text, isWordByte b = true := by
  obtain ⟨c, chars, start, parts, rfl⟩ := spelling
  intro b member
  obtain ⟨d, inside, written⟩ := List.mem_flatMap.mp member
  rcases List.mem_cons.mp inside with rfl | inside
  · exact isWordByte_of_isPart (isPart_of_isStart start) b written
  · exact isWordByte_of_isPart (parts d inside) b written

theorem IsSpelling.ne_nil {text : Bytes} (spelling : IsSpelling text) : text ≠ [] := by
  obtain ⟨c, chars, -, -, rfl⟩ := spelling
  refine List.ne_nil_of_length_pos ?_
  rw [List.flatMap_cons, List.length_append]
  exact Nat.add_pos_left (Utf8.encode_length_pos c) _

end Name

namespace Number

theorem IsExponent.isWordByte {exponent : Bytes} (spelling : IsExponent exponent) :
    ∀ b ∈ exponent, isWordByte b = true := by
  cases spelling with
  | none => exact List.forall_mem_nil _
  | some marks signs _ all =>
    refine List.forall_mem_cons.mpr ⟨?_, List.forall_mem_append.mpr ⟨?_, fun b member => ?_⟩⟩
    · rcases marks with rfl | rfl <;> decide
    · rcases signs with rfl | rfl | rfl <;> exact List.all_eq_true.mp (by decide)
    · exact isWordByte_of_digit (all b member)

theorem IsMantissa.isWordByte {mantissa : Bytes} (spelling : IsMantissa mantissa) :
    ∀ b ∈ mantissa, isWordByte b = true := by
  cases spelling with
  | whole _ all => exact fun b member => isWordByte_of_digit (all b member)
  | point _ allWhole allFraction =>
    refine List.forall_mem_append.mpr ⟨fun b member => isWordByte_of_digit (allWhole b member), ?_⟩
    exact List.forall_mem_cons.mpr ⟨by decide, fun b member => isWordByte_of_digit (allFraction b member)⟩

theorem IsSpelling.isWordByte {spelling : Bytes} (isSpelling : IsSpelling spelling) :
    ∀ b ∈ spelling, isWordByte b = true := by
  cases isSpelling with
  | hex marks _ all =>
    refine List.forall_mem_cons.mpr ⟨by decide, List.forall_mem_cons.mpr ⟨?_, fun b member => ?_⟩⟩
    · rcases marks with rfl | rfl <;> decide
    · exact isWordByte_of_hexDigit (all b member)
  | decimal isMantissa isExponent => exact List.forall_mem_append.mpr ⟨isMantissa.isWordByte, isExponent.isWordByte⟩

end Number

end EcmaFold
