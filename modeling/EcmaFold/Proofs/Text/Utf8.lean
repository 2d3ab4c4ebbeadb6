import EcmaFold.Text.Utf8

/-!
Decoding inverts encoding, and decodes nothing else.
-/

namespace EcmaFold.Utf8

theorem scalar?_eq_some {least code : Nat} {c : Char} (found : scalar? least code = some c) :
    least ≤ code ∧ c.toNat = code := by
  by_cases accepted : least ≤ code ∧ code.isValidChar
  · rw [scalar?, dif_pos accepted] at found
    cases found
    exact ⟨accepted.1, rfl⟩
  · rw [scalar?, dif_neg accepted] at found
    cases found

theorem scalar?_toNat {least : Nat} {c : Char} (enough : least ≤ c.toNat) :
    scalar? least c.toNat = some c := by
  rw [scalar?, dif_pos ⟨enough, c.valid⟩]
  rfl

theorem continuation?_eq_some {b : UInt8} {payload : Nat} (found : continuation? b = some payload) :
    0x80 ≤ b.toNat ∧ b.toNat ≤ 0xBF ∧ b.toNat = payload + 0x80 := by
  unfold continuation? at found
  split at found
  · rename_i accepted
    have least : 0x80 ≤ b.toNat := UInt8.le_iff_toNat_le.mp accepted.1
    have same := Option.some.inj found
    exact ⟨least, UInt8.le_iff_toNat_le.mp accepted.2, by omega⟩
  · cases found

theorem continuation?_ofNat {payload : Nat} (small : payload < 64) :
    continuation? (UInt8.ofNat (payload + 0x80)) = some payload := by
  have value : (UInt8.ofNat (payload + 0x80)).toNat = payload + 0x80 :=
    UInt8.toNat_ofNat_of_lt' (show payload + 0x80 < 256 by omega)
  have range : (0x80 : UInt8) ≤ UInt8.ofNat (payload + 0x80) ∧ UInt8.ofNat (payload + 0x80) ≤ 0xBF := by
    rw [UInt8.le_iff_toNat_le, UInt8.le_iff_toNat_le, value]
    exact ⟨Nat.le_add_left _ _, show payload + 0x80 ≤ 0xBF by omega⟩
  rw [continuation?, if_pos range, value]
  simp

/-! The encodings by their lengths -/

theorem encode_one {c : Char} (most : c.toNat < 0x80) : encode c = [UInt8.ofNat c.toNat] := by
  have bound : c.val.toNat ≤ 0x7f := show c.toNat ≤ 0x7f by omega
  rw [encode, String.utf8EncodeChar, if_pos bound]
  rfl

theorem encode_two {c : Char} (least : 0x80 ≤ c.toNat) (most : c.toNat < 0x800) :
    encode c = [UInt8.ofNat (c.toNat / 64 % 32 + 0xC0), UInt8.ofNat (c.toNat % 64 + 0x80)] := by
  have low : ¬ c.val.toNat ≤ 0x7f := show ¬ c.toNat ≤ 0x7f by omega
  have high : c.val.toNat ≤ 0x7ff := show c.toNat ≤ 0x7ff by omega
  rw [encode, String.utf8EncodeChar, if_neg low, if_pos high]
  rfl

theorem encode_three {c : Char} (least : 0x800 ≤ c.toNat) (most : c.toNat < 0x10000) :
    encode c = [UInt8.ofNat (c.toNat / 4096 % 16 + 0xE0), UInt8.ofNat (c.toNat / 64 % 64 + 0x80),
      UInt8.ofNat (c.toNat % 64 + 0x80)] := by
  have low : ¬ c.val.toNat ≤ 0x7f := show ¬ c.toNat ≤ 0x7f by omega
  have middle : ¬ c.val.toNat ≤ 0x7ff := show ¬ c.toNat ≤ 0x7ff by omega
  have high : c.val.toNat ≤ 0xffff := show c.toNat ≤ 0xffff by omega
  rw [encode, String.utf8EncodeChar, if_neg low, if_neg middle, if_pos high]
  rfl

theorem encode_four {c : Char} (least : 0x10000 ≤ c.toNat) :
    encode c = [UInt8.ofNat (c.toNat / 262144 % 8 + 0xF0), UInt8.ofNat (c.toNat / 4096 % 64 + 0x80),
      UInt8.ofNat (c.toNat / 64 % 64 + 0x80), UInt8.ofNat (c.toNat % 64 + 0x80)] := by
  have low : ¬ c.val.toNat ≤ 0x7f := show ¬ c.toNat ≤ 0x7f by omega
  have middle : ¬ c.val.toNat ≤ 0x7ff := show ¬ c.toNat ≤ 0x7ff by omega
  have high : ¬ c.val.toNat ≤ 0xffff := show ¬ c.toNat ≤ 0xffff by omega
  rw [encode, String.utf8EncodeChar, if_neg low, if_neg middle, if_neg high]
  rfl

theorem byte_eq {n : Nat} {b : UInt8} (same : n = b.toNat) : UInt8.ofNat n = b := by
  rw [same]
  exact UInt8.ofNat_toNat

/-- What is decoded is the encoding of a character. -/
theorem decode?_eq_some {bytes : Bytes} {c : Char} {width : Nat}
    (found : decode? bytes = some (c, width)) :
    ∃ rest, bytes = encode c ++ rest ∧ width = (encode c).length := by
  obtain _ | ⟨a, tail⟩ := bytes
  · cases found
  have byte := UInt8.toNat_lt a
  simp only [decode?, UInt8.lt_iff_toNat_lt, UInt8.reduceToNat] at found
  split at found
  · simp only [Option.map_eq_some_iff, Prod.mk.injEq] at found
    obtain ⟨_, found, rfl, rfl⟩ := found
    have code := (scalar?_eq_some found).2
    refine ⟨tail, ?_⟩
    rw [encode_one (by omega), code, byte_eq rfl]
    exact ⟨rfl, rfl⟩
  split at found
  · cases found
  split at found
  · obtain _ | ⟨b, tail⟩ := tail
    · cases found
    simp only [Option.bind_eq_bind, Option.bind_eq_some_iff, Option.pure_def, Option.some.injEq,
      Prod.mk.injEq] at found
    obtain ⟨x, foundX, _, foundC, rfl, rfl⟩ := found
    obtain ⟨_, _, payloadX⟩ := continuation?_eq_some foundX
    obtain ⟨shortest, code⟩ := scalar?_eq_some foundC
    refine ⟨tail, ?_⟩
    rw [encode_two (by omega) (by omega), byte_eq (b := a) (by omega), byte_eq (b := b) (by omega)]
    exact ⟨rfl, rfl⟩
  split at found
  · obtain _ | ⟨b, _ | ⟨d, tail⟩⟩ := tail
    · cases found
    · cases found
    simp only [Option.bind_eq_bind, Option.bind_eq_some_iff, Option.pure_def, Option.some.injEq,
      Prod.mk.injEq] at found
    obtain ⟨x, foundX, y, foundY, _, foundC, rfl, rfl⟩ := found
    obtain ⟨_, _, payloadX⟩ := continuation?_eq_some foundX
    obtain ⟨_, _, payloadY⟩ := continuation?_eq_some foundY
    obtain ⟨shortest, code⟩ := scalar?_eq_some foundC
    refine ⟨tail, ?_⟩
    rw [encode_three (by omega) (by omega), byte_eq (b := a) (by omega), byte_eq (b := b) (by omega),
      byte_eq (b := d) (by omega)]
    exact ⟨rfl, rfl⟩
  split at found
  · obtain _ | ⟨b, _ | ⟨d, _ | ⟨e, tail⟩⟩⟩ := tail
    · cases found
    · cases found
    · cases found
    simp only [Option.bind_eq_bind, Option.bind_eq_some_iff, Option.pure_def, Option.some.injEq,
      Prod.mk.injEq] at found
    obtain ⟨x, foundX, y, foundY, z, foundZ, _, foundC, rfl, rfl⟩ := found
    obtain ⟨_, _, payloadX⟩ := continuation?_eq_some foundX
    obtain ⟨_, _, payloadY⟩ := continuation?_eq_some foundY
    obtain ⟨_, _, payloadZ⟩ := continuation?_eq_some foundZ
    obtain ⟨shortest, code⟩ := scalar?_eq_some foundC
    refine ⟨tail, ?_⟩
    rw [encode_four (by omega), byte_eq (b := a) (by omega), byte_eq (b := b) (by omega),
      byte_eq (b := d) (by omega), byte_eq (b := e) (by omega)]
    exact ⟨rfl, rfl⟩
  · cases found

theorem decode?_encode (c : Char) (rest : Bytes) :
    decode? (encode c ++ rest) = some (c, (encode c).length) := by
  have valid : c.toNat < 0x110000 := by
    have := c.valid
    simp only [UInt32.isValidChar, Nat.isValidChar] at this
    change c.toNat < _ ∨ _ ∧ c.toNat < _ at this
    omega
  by_cases one : c.toNat < 0x80
  · have value : (UInt8.ofNat c.toNat).toNat = c.toNat :=
      UInt8.toNat_ofNat_of_lt' (show c.toNat < 256 by omega)
    rw [encode_one one]
    simp only [List.cons_append, List.nil_append, decode?, UInt8.lt_iff_toNat_lt, UInt8.reduceToNat, value]
    rw [if_pos one, scalar?_toNat (Nat.zero_le _)]
    rfl
  by_cases two : c.toNat < 0x800
  · have value : (UInt8.ofNat (c.toNat / 64 % 32 + 0xC0)).toNat = c.toNat / 64 % 32 + 0xC0 :=
      UInt8.toNat_ofNat_of_lt' (show c.toNat / 64 % 32 + 0xC0 < 256 by omega)
    have code : (c.toNat / 64 % 32 + 0xC0 - 0xC0) * 64 + c.toNat % 64 = c.toNat := by omega
    rw [encode_two (by omega) two]
    simp only [List.cons_append, List.nil_append, decode?, UInt8.lt_iff_toNat_lt, UInt8.reduceToNat, value]
    rw [if_neg (by omega), if_neg (by omega), if_pos (by omega), continuation?_ofNat (by omega)]
    simp only [Option.bind_eq_bind, Option.bind_some, code, scalar?_toNat (show 0x80 ≤ c.toNat by omega)]
    rfl
  by_cases three : c.toNat < 0x10000
  · have value : (UInt8.ofNat (c.toNat / 4096 % 16 + 0xE0)).toNat = c.toNat / 4096 % 16 + 0xE0 :=
      UInt8.toNat_ofNat_of_lt' (show c.toNat / 4096 % 16 + 0xE0 < 256 by omega)
    have code : ((c.toNat / 4096 % 16 + 0xE0 - 0xE0) * 64 + c.toNat / 64 % 64) * 64 + c.toNat % 64 =
      c.toNat := by omega
    rw [encode_three (by omega) three]
    simp only [List.cons_append, List.nil_append, decode?, UInt8.lt_iff_toNat_lt, UInt8.reduceToNat, value]
    rw [if_neg (by omega), if_neg (by omega), if_neg (by omega), if_pos (by omega),
      continuation?_ofNat (by omega), continuation?_ofNat (by omega)]
    simp only [Option.bind_eq_bind, Option.bind_some, code, scalar?_toNat (show 0x800 ≤ c.toNat by omega)]
    rfl
  · have value : (UInt8.ofNat (c.toNat / 262144 % 8 + 0xF0)).toNat = c.toNat / 262144 % 8 + 0xF0 :=
      UInt8.toNat_ofNat_of_lt' (show c.toNat / 262144 % 8 + 0xF0 < 256 by omega)
    have code : (((c.toNat / 262144 % 8 + 0xF0 - 0xF0) * 64 + c.toNat / 4096 % 64) * 64 +
      c.toNat / 64 % 64) * 64 + c.toNat % 64 = c.toNat := by omega
    rw [encode_four (by omega)]
    simp only [List.cons_append, List.nil_append, decode?, UInt8.lt_iff_toNat_lt, UInt8.reduceToNat, value]
    rw [if_neg (by omega), if_neg (by omega), if_neg (by omega), if_neg (by omega), if_pos (by omega),
      continuation?_ofNat (by omega), continuation?_ofNat (by omega), continuation?_ofNat (by omega)]
    simp only [Option.bind_eq_bind, Option.bind_some, code, scalar?_toNat (show 0x10000 ≤ c.toNat by omega)]
    rfl

theorem encode_length_pos (c : Char) : 0 < (encode c).length := by
  rw [encode, String.length_utf8EncodeChar]
  exact c.utf8Size_pos

theorem decode?_width_pos {bytes : Bytes} {c : Char} {width : Nat}
    (found : decode? bytes = some (c, width)) : 0 < width := by
  obtain ⟨_, _, rfl⟩ := decode?_eq_some found
  exact encode_length_pos c

/-- An ASCII character takes one byte. -/
theorem decode?_ascii {b : UInt8} (rest : Bytes) (ascii : b < 0x80) :
    decode? (b :: rest) = some (Char.ofNat b.toNat, 1) := by
  have small : b.toNat < 128 := ascii
  have code : (Char.ofNat b.toNat).toNat = b.toNat := by
    have valid : b.toNat.isValidChar := .inl (by omega)
    rw [Char.ofNat, dif_pos valid]
    rfl
  have decoded : scalar? 0 b.toNat = some (Char.ofNat b.toNat) := by
    simpa [code] using @scalar?_toNat 0 (Char.ofNat b.toNat) (Nat.zero_le _)
  simp [decode?, ascii, decoded]

/-- A character is decoded the same whatever follows it. -/
theorem decode?_append {bytes : Bytes} {c : Char} {width : Nat} (found : decode? bytes = some (c, width))
    (rest : Bytes) : decode? (bytes ++ rest) = some (c, width) := by
  obtain ⟨tail, rfl, rfl⟩ := decode?_eq_some found
  rw [List.append_assoc, decode?_encode]

end EcmaFold.Utf8
