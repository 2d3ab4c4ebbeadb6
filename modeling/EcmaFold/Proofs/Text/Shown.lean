import Mathlib.Algebra.Group.Nat.Defs
import EcmaFold.Proofs.Lexer.Quotation

/-!
Debug texts read back. The quoted form of a byte string, whatever stands behind it, determines the byte string.
-/

namespace EcmaFold

namespace Bytes

theorem length_hex (width n : Nat) : (hex width n).length = width := by
  induction width generalizing n with
  | zero => rfl
  | succ width ih => rw [hex, List.length_append, ih, List.length_singleton]

theorem hexValue?_hexDigit : ∀ n < 16, hexValue? (hexDigit n) = some n := by decide

/-- Enough hexadecimal digits determine a number. -/
theorem digitsValue_hex {width n : Nat} (fits : n < 16 ^ width) : digitsValue 16 (hex width n) = n := by
  induction width generalizing n with
  | zero => exact (Nat.lt_one_iff.mp fits).symm
  | succ width ih =>
    have high : n / 16 < 16 ^ width := by
      rw [Nat.div_lt_iff_lt_mul (by decide), ← Nat.pow_succ]
      exact fits
    have value : digitsValue 16 (hex width (n / 16)) = n / 16 := ih high
    have digit := hexValue?_hexDigit (n % 16) (Nat.mod_lt _ (by decide))
    rw [digitsValue] at value
    rw [hex, digitsValue, List.foldl_append, value, List.foldl_cons, List.foldl_nil, digit, Option.getD_some]
    exact Nat.div_add_mod' n 16

end Bytes

namespace Utf8

/-- The bytes of a character, or a bad byte. -/
def runeBytes : Option Char × UInt8 → Bytes
  | (some c, _) => encode c
  | (none, bad) => [bad]

/-- A text consists of its characters and its bad bytes. -/
theorem flatMap_runes (text : Bytes) : (runes text).flatMap runeBytes = text := by
  generalize length : text.length = n
  induction n using Nat.strongRecOn generalizing text with
  | _ n ih =>
    cases decoded : decode? text with
    | none =>
      cases text with
      | nil => rfl
      | cons b rest =>
        rw [List.length_cons] at length
        rw [runes, runesFrom, decoded]
        exact congrArg (b :: ·) (ih rest.length (by omega) rest rfl)
    | some found =>
      obtain ⟨tail, rfl, -⟩ := decode?_eq_some decoded
      have positive := encode_length_pos found.1
      obtain ⟨b, step⟩ := runes_encode found.1 tail
      rw [List.length_append] at length
      rw [step, List.flatMap_cons]
      exact congrArg (encode found.1 ++ ·) (ih tail.length (by omega) tail rfl)

/-- The first byte of a character is the character if it is ASCII. -/
theorem eq_of_encode_ascii {c d : Char} {tail : Bytes} (bytes : encode c = UInt8.ofNat d.toNat :: tail)
    (ascii : d.toNat < 0x80) : c = d := by
  have decoded := decode?_encode c []
  have again := decode?_encode d tail
  rw [List.append_nil, bytes] at decoded
  rw [encode_one ascii, List.singleton_append, decoded] at again
  exact (Prod.mk.inj (Option.some.inj again)).1

end Utf8

namespace Quoted

/-- What an escape stands for and what is behind it; the bytes start after the backslash. -/
def escaped? : Bytes → Option (Bytes × Bytes)
  | [] => none
  | b :: rest =>
    if b = 0x78 then some ([UInt8.ofNat (Bytes.digitsValue 16 (rest.take 2))], rest.drop 2)
    else if b = 0x75 then some (Utf8.encodeCode (Bytes.digitsValue 16 (rest.take 4)), rest.drop 4)
    else if b = 0x55 then some (Utf8.encodeCode (Bytes.digitsValue 16 (rest.take 8)), rest.drop 8)
    else if b = 0x6E then some ([0x0A], rest)
    else if b = 0x72 then some ([0x0D], rest)
    else if b = 0x74 then some ([0x09], rest)
    else if b = 0x62 then some ([0x08], rest)
    else if b = 0x66 then some ([0x0C], rest)
    else if b = 0x76 then some ([0x0B], rest)
    else if b = 0x61 then some ([0x07], rest)
    else some ([b], rest)

/-- What the head of a debug text stands for and what is behind it. At the closing quote there is nothing more. -/
def shown? : Bytes → Option (Bytes × Bytes)
  | [] => none
  | b :: rest =>
    if b = 0x22 then none
    else if b = 0x5C then escaped? rest
    else (Utf8.decode? (b :: rest)).map fun (c, width) => (Utf8.encode c, (b :: rest).drop width)

theorem shown?_byteEscape {code : Nat} (fits : code < 0x100) (rest : Bytes) :
    shown? (byteEscape code ++ rest) = some ([UInt8.ofNat code], rest) := by
  have read : shown? (byteEscape code ++ rest) =
      some ([UInt8.ofNat (Bytes.digitsValue 16 ((Bytes.hex 2 code ++ rest).take 2))],
        (Bytes.hex 2 code ++ rest).drop 2) := rfl
  rw [read, List.take_left' (Bytes.length_hex 2 code), List.drop_left' (Bytes.length_hex 2 code),
    Bytes.digitsValue_hex fits]

theorem encodeCode_toNat (c : Char) : Utf8.encodeCode c.toNat = Utf8.encode c := by
  rw [Utf8.encodeCode, Utf8.scalar?_toNat (Nat.zero_le _), Option.getD_some]

theorem shown?_short {c : Char} {escape : Bytes} (short : shortEscape? c = some escape) (rest : Bytes) :
    shown? (escape ++ rest) = some (Utf8.encode c, rest) := by
  unfold shortEscape? at short
  split at short <;> cases short <;> rfl

/-- A character that shows as it is. -/
theorem shown?_encode {c : Char} (plain : shortEscape? c = none) (rest : Bytes) :
    shown? (Utf8.encode c ++ rest) = some (Utf8.encode c, rest) := by
  have positive := Utf8.encode_length_pos c
  have decoded := Utf8.decode?_encode c rest
  cases bytes : Utf8.encode c with
  | nil => simp [bytes] at positive
  | cons b tail =>
    have noQuote : b ≠ 0x22 := by
      rintro rfl
      rw [Utf8.eq_of_encode_ascii (d := '"') bytes (by decide)] at plain
      cases plain
    have noSlash : b ≠ 0x5C := by
      rintro rfl
      rw [Utf8.eq_of_encode_ascii (d := '\\') bytes (by decide)] at plain
      cases plain
    rw [bytes, List.cons_append] at decoded
    rw [List.cons_append, shown?, if_neg noQuote, if_neg noSlash, decoded, Option.map_some]
    simp only [bytes, ← List.cons_append, List.drop_left]

/-- Each character of a debug text is read back. -/
theorem shown?_debugChar (c : Char) (rest : Bytes) : shown? (debugChar c ++ rest) = some (Utf8.encode c, rest) := by
  unfold debugChar
  split
  · rename_i short
    exact shown?_short short rest
  rename_i plain
  split
  · rename_i bell
    subst bell
    rfl
  split
  · exact shown?_encode plain rest
  split
  · rename_i ascii
    rw [shown?_byteEscape (by omega), Utf8.encode_one ascii]
  split
  · rename_i fits
    have length := Bytes.length_hex 4 c.toNat
    have read : shown? (utf8 "\\u" ++ Bytes.hex 4 c.toNat ++ rest) =
        some (Utf8.encodeCode (Bytes.digitsValue 16 ((Bytes.hex 4 c.toNat ++ rest).take 4)),
          (Bytes.hex 4 c.toNat ++ rest).drop 4) := rfl
    rw [read, List.take_left' length, List.drop_left' length, Bytes.digitsValue_hex fits, encodeCode_toNat]
  · have fits : c.toNat < 16 ^ 8 := Nat.lt_of_lt_of_le c.val.toNat_lt (by decide)
    have length := Bytes.length_hex 8 c.toNat
    have read : shown? (utf8 "\\U" ++ Bytes.hex 8 c.toNat ++ rest) =
        some (Utf8.encodeCode (Bytes.digitsValue 16 ((Bytes.hex 8 c.toNat ++ rest).take 8)),
          (Bytes.hex 8 c.toNat ++ rest).drop 8) := rfl
    rw [read, List.take_left' length, List.drop_left' length, Bytes.digitsValue_hex fits, encodeCode_toNat]

/-- A character or a bad byte in a debug text. -/
def debugRune : Option Char × UInt8 → Bytes
  | (some c, _) => debugChar c
  | (none, bad) => byteEscape bad.toNat

theorem shown?_debugRune (rune : Option Char × UInt8) (rest : Bytes) :
    shown? (debugRune rune ++ rest) = some (Utf8.runeBytes rune, rest) := by
  obtain ⟨_ | c, bad⟩ := rune
  · exact (shown?_byteEscape bad.toNat_lt rest).trans (by rw [UInt8.ofNat_toNat]; rfl)
  · exact shown?_debugChar c rest

theorem debug_eq (text : Bytes) : debug text = 0x22 :: (Utf8.runes text).flatMap debugRune ++ [0x22] :=
  rfl

theorem runes_of_debug {runes runes' : List (Option Char × UInt8)} {rest rest' : Bytes}
    (same : runes.flatMap debugRune ++ 0x22 :: rest = runes'.flatMap debugRune ++ 0x22 :: rest') :
    runes.flatMap Utf8.runeBytes = runes'.flatMap Utf8.runeBytes ∧ rest = rest' := by
  have closed : ∀ rest : Bytes, shown? (0x22 :: rest) = none := fun _ => rfl
  have heads := congrArg shown? same
  induction runes generalizing runes' with
  | nil =>
    cases runes' with
    | nil => exact ⟨rfl, (List.cons.inj same).2⟩
    | cons rune' more' =>
      rw [List.flatMap_nil, List.nil_append, closed, List.flatMap_cons, List.append_assoc, shown?_debugRune] at heads
      cases heads
  | cons rune more ih =>
    cases runes' with
    | nil =>
      rw [List.flatMap_nil, List.nil_append, closed, List.flatMap_cons, List.append_assoc, shown?_debugRune] at heads
      cases heads
    | cons rune' more' =>
      rw [List.flatMap_cons, List.flatMap_cons, List.append_assoc, List.append_assoc, shown?_debugRune,
        shown?_debugRune, Option.some.injEq, Prod.mk.injEq] at heads
      obtain ⟨tails, ended⟩ := ih heads.2 (congrArg shown? heads.2)
      rw [List.flatMap_cons, List.flatMap_cons, heads.1, tails]
      exact ⟨rfl, ended⟩

/-- Debug texts are different for different texts, and none goes on with another. -/
theorem debug_append_inj {text text' rest rest' : Bytes} (same : debug text ++ rest = debug text' ++ rest') :
    text = text' ∧ rest = rest' := by
  rw [debug_eq, debug_eq, List.cons_append, List.cons_append, List.cons_append, List.cons_append, List.append_assoc,
    List.append_assoc] at same
  obtain ⟨texts, ended⟩ := runes_of_debug (List.cons.inj same).2
  rw [Utf8.flatMap_runes, Utf8.flatMap_runes] at texts
  exact ⟨texts, ended⟩

end Quoted

end EcmaFold
