import EcmaFold.Proofs.Lexer.Adjacent

/-!
How far the lexical rules look ahead. No rule looks past an ASCII character that does not belong to what it
reads, and what a rule accepts it also accepts when less of the text behind is there.
-/

namespace EcmaFold

/-- The bytes are none, or they begin with an ASCII character. -/
def Bytes.AsciiHead (bytes : Bytes) : Prop := ∀ b ∈ bytes.head?, b < 0x80

theorem Bytes.asciiHead_cons {b : UInt8} (ascii : b < 0x80) (rest : Bytes) : Bytes.AsciiHead (b :: rest) := by
  rintro _ ⟨⟩
  exact ascii

namespace Utf8

theorem continues_ofNat (n : Nat) : 0x80 ≤ UInt8.ofNat (n % 64 + 0x80) ∧ UInt8.ofNat (n % 64 + 0x80) < 0xC0 := by
  have most : n % 64 + 0x80 < 0x100 := by omega
  rw [UInt8.le_iff_toNat_le, UInt8.lt_iff_toNat_lt, UInt8.toNat_ofNat_of_lt' most]
  exact ⟨Nat.le_add_left _ _, show n % 64 + 0x80 < 0xC0 by omega⟩

/-- The bytes behind the first one of a character are no first bytes. -/
theorem continues_of_encode {c : Char} {first : UInt8} {more : Bytes} (encoded : encode c = first :: more) :
    ∀ b ∈ more, 0x80 ≤ b ∧ b < 0xC0 := by
  by_cases one : c.toNat < 0x80
  · rw [encode_one one] at encoded
    cases encoded
    exact List.forall_mem_nil _
  by_cases two : c.toNat < 0x800
  · rw [encode_two (by omega) two] at encoded
    cases encoded
    exact List.forall_mem_singleton.mpr (continues_ofNat _)
  by_cases three : c.toNat < 0x10000
  · rw [encode_three (by omega) three] at encoded
    cases encoded
    exact List.forall_mem_cons.mpr ⟨continues_ofNat _, List.forall_mem_singleton.mpr (continues_ofNat _)⟩
  · rw [encode_four (by omega)] at encoded
    cases encoded
    exact List.forall_mem_cons.mpr ⟨continues_ofNat _, List.forall_mem_cons.mpr ⟨continues_ofNat _,
      List.forall_mem_singleton.mpr (continues_ofNat _)⟩⟩

/-- Only the first byte of a character can be ASCII. -/
theorem wide_of_encode {c : Char} {first : UInt8} {more : Bytes} (encoded : encode c = first :: more) :
    ∀ b ∈ more, 0x80 ≤ b :=
  fun b member => (continues_of_encode encoded b member).1

/-- A character ends before an ASCII character that is not its first byte. -/
theorem decode?_width_le {bytes rest : Bytes} {c : Char} {width : Nat} (nonempty : bytes ≠ [])
    (ascii : Bytes.AsciiHead rest) (found : decode? (bytes ++ rest) = some (c, width)) : width ≤ bytes.length := by
  obtain ⟨tail, same, rfl⟩ := decode?_eq_some found
  refine Nat.le_of_not_lt fun longer => ?_
  rcases List.append_eq_append_iff.mp same with ⟨inside, encoded, split⟩ | ⟨inside, rfl, -⟩
  · obtain _ | ⟨b, inside⟩ := inside
    · simp [encoded] at longer
    · obtain _ | ⟨first, bytes⟩ := bytes
      · exact nonempty rfl
      · have wide := wide_of_encode encoded b (by simp)
        have narrow := ascii b (by rw [split]; rfl)
        exact absurd narrow (by simpa using wide)
  · rw [List.length_append] at longer
    omega

theorem decode?_behind {bytes rest rest' : Bytes} (nonempty : bytes ≠ []) (ascii : Bytes.AsciiHead rest)
    (ascii' : Bytes.AsciiHead rest') : decode? (bytes ++ rest) = decode? (bytes ++ rest') := by
  have oneWay {rest rest' : Bytes} {c : Char} {width : Nat} (ascii : Bytes.AsciiHead rest)
      (found : decode? (bytes ++ rest) = some (c, width)) : decode? (bytes ++ rest') = some (c, width) := by
    have inside := decode?_width_le nonempty ascii found
    obtain ⟨tail, same, rfl⟩ := decode?_eq_some found
    obtain ⟨more, rfl⟩ := List.prefix_of_prefix_length_le (List.prefix_append _ _) (same ▸ List.prefix_append _ _) inside
    rw [List.append_assoc, decode?_encode]
  cases found : decode? (bytes ++ rest) with
  | some head => exact (oneWay ascii found).symm
  | none =>
    cases found' : decode? (bytes ++ rest') with
    | none => rfl
    | some head =>
      rw [oneWay ascii' found'] at found
      cases found

end Utf8

theorem Name.goesOn_behind {bytes rest rest' : Bytes} (nonempty : bytes ≠ []) (ascii : Bytes.AsciiHead rest)
    (ascii' : Bytes.AsciiHead rest') : goesOn (bytes ++ rest) = goesOn (bytes ++ rest') := by
  rw [goesOn, goesOn, Utf8.decode?_behind nonempty ascii ascii']

/-- What a name does not go on with does not go on with it when it is cut. -/
theorem Name.goesOn_cut {bytes rest : Bytes} (stops : goesOn (bytes ++ rest) = false) : goesOn bytes = false := by
  unfold goesOn at *
  cases found : Utf8.decode? bytes with
  | none => rfl
  | some head => rwa [Utf8.decode?_append found rest] at stops

/-! Line terminators -/

theorem take_two_behind {bytes rest : Bytes} {last : UInt8} (wide : 0x80 ≤ last) (ascii : Bytes.AsciiHead rest) :
    (bytes ++ rest).take 2 = [0x80, last] ↔ bytes.take 2 = [0x80, last] := by
  have narrow : ∀ b ∈ rest.head?, b ≠ 0x80 ∧ b ≠ last := by
    intro b first
    have small := ascii b first
    refine ⟨?_, ?_⟩
    · rintro rfl
      exact absurd small (by decide)
    · rintro rfl
      exact absurd small (by simpa using wide)
  obtain _ | ⟨first, _ | ⟨second, bytes⟩⟩ := bytes
  · cases rest with
    | nil => simp
    | cons b rest => simp [(narrow b rfl).1]
  · cases rest with
    | nil => simp
    | cons b rest => simp [(narrow b rfl).2]
  · simp

theorem atLineTerminator_cons (b : UInt8) (rest : Bytes) : atLineTerminator (b :: rest) = true ↔
    b = 0x0A ∨ b = 0x0D ∨ b = 0xE2 ∧ (rest.take 2 = [0x80, 0xA8] ∨ rest.take 2 = [0x80, 0xA9]) := by
  rw [atLineTerminator, lineTerminator?_cons]
  split
  · simp_all
  split
  · split <;> simp_all
  split
  · simp_all
  · simp_all

theorem atLineTerminator_behind {bytes rest rest' : Bytes} (nonempty : bytes ≠ []) (ascii : Bytes.AsciiHead rest)
    (ascii' : Bytes.AsciiHead rest') : atLineTerminator (bytes ++ rest) = atLineTerminator (bytes ++ rest') := by
  obtain _ | ⟨b, bytes⟩ := bytes
  · exact absurd rfl nonempty
  · rw [Bool.eq_iff_iff, List.cons_append, List.cons_append, atLineTerminator_cons, atLineTerminator_cons,
      take_two_behind (by decide) ascii, take_two_behind (by decide) ascii, take_two_behind (by decide) ascii',
      take_two_behind (by decide) ascii']

theorem lineTerminator?_behind {bytes rest rest' : Bytes} (nonempty : bytes ≠ []) (ascii : Bytes.AsciiHead rest)
    (ascii' : Bytes.AsciiHead rest') (noFeed : rest.head? ≠ some 0x0A) (noFeed' : rest'.head? ≠ some 0x0A) :
    lineTerminator? (bytes ++ rest) = lineTerminator? (bytes ++ rest') := by
  obtain _ | ⟨b, bytes⟩ := bytes
  · exact absurd rfl nonempty
  · have pairs : (bytes ++ rest).head? = some 0x0A ↔ (bytes ++ rest').head? = some 0x0A := by
      cases bytes with
      | nil => exact iff_of_false noFeed noFeed'
      | cons next bytes => rfl
    simp only [List.cons_append, lineTerminator?_cons, take_two_behind (show (0x80 : UInt8) ≤ 0xA8 by decide) ascii,
      take_two_behind (show (0x80 : UInt8) ≤ 0xA9 by decide) ascii,
      take_two_behind (show (0x80 : UInt8) ≤ 0xA8 by decide) ascii',
      take_two_behind (show (0x80 : UInt8) ≤ 0xA9 by decide) ascii', pairs]

/-- A line terminator is one whatever follows it. -/
theorem atLineTerminator_append {bytes : Bytes} (found : atLineTerminator bytes = true) (rest : Bytes) :
    atLineTerminator (bytes ++ rest) = true := by
  obtain _ | ⟨b, bytes⟩ := bytes
  · cases found
  · rw [List.cons_append]
    rw [atLineTerminator_cons] at found ⊢
    refine found.imp_right (Or.imp_right (And.imp_right (Or.imp ?_ ?_)))
    all_goals
      intro same
      rw [← List.take_append_drop 2 bytes, same]
      rfl

/-! String literals -/

namespace StringLiteral

/-- What comes behind the closing quote of a literal. -/
structure IsQuote (quote : UInt8) : Prop where
  ascii : quote < 0x80
  noFeed : quote ≠ 0x0A
  noReturn : quote ≠ 0x0D

theorem isQuote {quote : UInt8} (either : quote = 0x22 ∨ quote = 0x27) : IsQuote quote := by
  rcases either with rfl | rfl <;> exact ⟨by decide, by decide, by decide⟩

theorem codeEscape?_width {count width : Nat} {bytes decoded : Bytes}
    (found : codeEscape? count bytes = some (decoded, width)) : width = count + 1 := by
  unfold codeEscape? at found
  simp only at found
  split at found
  · cases found
  · obtain ⟨_, _, same⟩ := Option.map_eq_some_iff.mp found
    cases same
    rfl

/-- An escape by number has all its digits. -/
theorem codeEscape?_behind {count width : Nat} {bytes rest decoded : Bytes} (rest' : Bytes)
    (found : codeEscape? count (bytes ++ rest) = some (decoded, width)) (inside : width ≤ bytes.length + 1) :
    codeEscape? count (bytes ++ rest') = some (decoded, width) := by
  have enough : count ≤ bytes.length := by
    rw [codeEscape?_width found] at inside
    omega
  unfold codeEscape? at found ⊢
  rwa [List.take_append_of_le_length enough] at found ⊢

/-- An escape does not look past a quote behind it. -/
theorem escape?_behind {quote : UInt8} (closes : IsQuote quote) {b : UInt8} {bytes rest decoded : Bytes} {width : Nat}
    (rest' : Bytes) (found : escape? (b :: (bytes ++ quote :: rest)) = some (decoded, width))
    (inside : width ≤ bytes.length + 1) : escape? (b :: (bytes ++ quote :: rest')) = some (decoded, width) := by
  by_cases two : b = 0x78
  · subst two
    exact codeEscape?_behind _ found inside
  by_cases four : b = 0x75
  · subst four
    exact codeEscape?_behind _ found inside
  have ascii := Bytes.asciiHead_cons closes.ascii rest
  have ascii' := Bytes.asciiHead_cons closes.ascii rest'
  have heads : (bytes ++ quote :: rest').head? = (bytes ++ quote :: rest).head? := by
    cases bytes <;> rfl
  have lines : lineTerminator? (b :: (bytes ++ quote :: rest')) = lineTerminator? (b :: (bytes ++ quote :: rest)) :=
    @lineTerminator?_behind (b :: bytes) _ _ (List.cons_ne_nil b bytes) ascii' ascii
      (by simpa using closes.noFeed) (by simpa using closes.noFeed)
  have characters : Utf8.decode? (b :: (bytes ++ quote :: rest')) = Utf8.decode? (b :: (bytes ++ quote :: rest)) :=
    @Utf8.decode?_behind (b :: bytes) _ _ (List.cons_ne_nil b bytes) ascii' ascii
  have same : escape? (b :: (bytes ++ quote :: rest')) = escape? (b :: (bytes ++ quote :: rest)) := by
    simp only [escape?, if_neg two, if_neg four, heads, lines, characters]
  rwa [same]

theorem lineTerminator?_pos {bytes : Bytes} {width : Nat} (found : lineTerminator? bytes = some width) : 0 < width := by
  obtain _ | ⟨b, rest⟩ := bytes
  · cases found
  · rw [lineTerminator?_cons] at found
    grind

/-- What an escape takes: digits, one letter, a line terminator, or a character. -/
theorem escape?_cases {b : UInt8} {rest decoded : Bytes} {width : Nat}
    (found : escape? (b :: rest) = some (decoded, width)) :
    (∃ count, codeEscape? count rest = some (decoded, width)) ∨ width = 1 ∨ lineTerminator? (b :: rest) = some width ∨
      ∃ c, Utf8.decode? (b :: rest) = some (c, width) := by
  by_cases two : b = 0x78
  · subst two
    exact .inl ⟨2, found⟩
  by_cases four : b = 0x75
  · subst four
    exact .inl ⟨4, found⟩
  simp only [escape?, if_neg two, if_neg four] at found
  -- An escape by one letter has nothing behind it.
  iterate 6
    split at found
    · cases found
      exact .inr (.inl rfl)
  split at found
  · split at found <;> cases found
    exact .inr (.inl rfl)
  split at found
  · rename_i ends
    cases found
    exact .inr (.inr (.inl ends))
  split at found
  · rename_i char
    cases found
    exact .inr (.inr (.inr ⟨_, char⟩))
  · cases found
    exact .inr (.inl rfl)

/-- An escape takes room. -/
theorem escape?_pos {bytes decoded : Bytes} {width : Nat} (found : escape? bytes = some (decoded, width)) : 0 < width := by
  obtain _ | ⟨b, rest⟩ := bytes
  · cases found
  rcases escape?_cases found with ⟨count, code⟩ | rfl | ends | ⟨c, char⟩
  · rw [codeEscape?_width code]
    exact Nat.succ_pos count
  · exact Nat.one_pos
  · exact lineTerminator?_pos ends
  · exact Utf8.decode?_width_pos char

/-- A body begins with its closing quote, with an escape, or with a byte that stands for itself. -/
theorem bodyFrom_cases {quote b : UInt8} {bytes value : Bytes} {width : Nat}
    (found : bodyFrom quote 0 (b :: bytes) = some (value, width)) : atLineTerminator (b :: bytes) = false ∧
      (b = quote ∧ value = [] ∧ width = 1 ∨
        b ≠ quote ∧ b = 0x5C ∧ (∃ decoded taken value' more, escape? bytes = some (decoded, taken) ∧
          bodyFrom quote taken bytes = some (value', more) ∧ value = decoded ++ value' ∧ width = more + 1) ∨
        b ≠ quote ∧ b ≠ 0x5C ∧ ∃ value' more, bodyFrom quote 0 bytes = some (value', more) ∧ value = b :: value' ∧
          width = more + 1) := by
  rw [bodyFrom] at found
  split at found
  · cases found
  rename_i inLine
  refine ⟨Bool.not_eq_true _ ▸ inLine, ?_⟩
  split at found
  · rename_i closes
    cases found
    exact .inl ⟨closes, rfl, rfl⟩
  rename_i noQuote
  split at found
  · rename_i isSlash
    split at found
    · cases found
    rename_i decoded taken escaped
    obtain ⟨⟨value', more⟩, inner, same⟩ := Option.map_eq_some_iff.mp found
    cases same
    exact .inr (.inl ⟨noQuote, isSlash, decoded, taken, value', more, escaped, inner, rfl, rfl⟩)
  · rename_i noSlash
    obtain ⟨⟨value', more⟩, inner, same⟩ := Option.map_eq_some_iff.mp found
    cases same
    exact .inr (.inr ⟨noQuote, noSlash, value', more, inner, rfl, rfl⟩)

/-- A quote is no line terminator. -/
theorem IsQuote.inLine {quote : UInt8} (closes : IsQuote quote) (rest : Bytes) :
    atLineTerminator (quote :: rest) = false := by
  rw [← Bool.not_eq_true, atLineTerminator_cons]
  rintro (feed | carriage | ⟨rfl, _⟩)
  · exact closes.noFeed feed
  · exact closes.noReturn carriage
  · exact absurd closes.ascii (by decide)

/-- The body of a literal ends with its quote, and nothing behind that is looked at. -/
theorem bodyFrom_eq_some {quote : UInt8} (closes : IsQuote quote) {pending : Nat} {bytes value : Bytes} {width : Nat}
    (found : bodyFrom quote pending bytes = some (value, width)) :
    ∃ body rest, bytes = body ++ quote :: rest ∧ width = body.length + 1 ∧ pending ≤ body.length ∧
      ∀ rest', bodyFrom quote pending (body ++ quote :: rest') = some (value, width) := by
  induction bytes generalizing pending value width with
  | nil => cases pending <;> cases found
  | cons b bytes ih =>
    cases pending with
    | succ pending =>
      obtain ⟨⟨value, width⟩, inner, same⟩ := Option.map_eq_some_iff.mp found
      cases same
      obtain ⟨body, rest, rfl, rfl, inside, again⟩ := ih inner
      refine ⟨b :: body, rest, rfl, rfl, Nat.succ_le_succ inside, fun rest' => ?_⟩
      rw [List.cons_append, bodyFrom, again]
      rfl
    | zero =>
      obtain ⟨inLine, begins⟩ := bodyFrom_cases found
      have stays {body : Bytes} (rest rest' : Bytes) (here : bytes = body ++ quote :: rest) :
          atLineTerminator (b :: (body ++ quote :: rest')) = false := by
        rw [here] at inLine
        rwa [← List.cons_append, atLineTerminator_behind (List.cons_ne_nil b body) (Bytes.asciiHead_cons closes.ascii rest')
          (Bytes.asciiHead_cons closes.ascii rest), List.cons_append]
      rcases begins with ⟨rfl, rfl, rfl⟩ | ⟨noQuote, rfl, decoded, taken, value, width, escaped, inner, rfl, rfl⟩ |
        ⟨noQuote, noSlash, value, width, inner, rfl, rfl⟩
      · refine ⟨[], bytes, rfl, rfl, Nat.le_refl _, fun rest' => ?_⟩
        rw [List.nil_append, bodyFrom, closes.inLine, if_neg Bool.false_ne_true, if_pos rfl]
      · obtain ⟨body, rest, here, rfl, inside, again⟩ := ih inner
        refine ⟨0x5C :: body, rest, by rw [here]; rfl, rfl, Nat.zero_le _, fun rest' => ?_⟩
        have escapes : escape? (body ++ quote :: rest') = some (decoded, taken) := by
          have positive := escape?_pos escaped
          rw [here] at escaped
          obtain _ | ⟨first, body⟩ := body
          · cases inside
            cases positive
          · exact escape?_behind closes rest' escaped inside
        rw [List.cons_append, bodyFrom, stays rest rest' here, if_neg Bool.false_ne_true, if_neg noQuote, if_pos rfl,
          escapes]
        simp only [again]
        rfl
      · obtain ⟨body, rest, here, rfl, -, again⟩ := ih inner
        refine ⟨b :: body, rest, by rw [here]; rfl, rfl, Nat.zero_le _, fun rest' => ?_⟩
        rw [List.cons_append, bodyFrom, stays rest rest' here, if_neg Bool.false_ne_true, if_neg noQuote,
          if_neg noSlash, again]
        rfl

/-- A literal is read up to its closing quote, and the same whatever follows that. -/
theorem read?_eq_some {bytes value : Bytes} {width : Nat} (found : read? bytes = some (value, width)) :
    ∃ text rest, bytes = text ++ rest ∧ width = text.length ∧ ∀ rest', read? (text ++ rest') = some (value, width) := by
  obtain _ | ⟨quote, bytes⟩ := bytes
  · cases found
  rw [read?] at found
  split at found
  · rename_i either
    obtain ⟨⟨value, width⟩, inner, same⟩ := Option.map_eq_some_iff.mp found
    cases same
    obtain ⟨body, rest, rfl, rfl, -, again⟩ := bodyFrom_eq_some (isQuote either) inner
    refine ⟨quote :: (body ++ [quote]), rest, by simp, by simp, fun rest' => ?_⟩
    rw [List.cons_append, List.append_assoc, List.singleton_append, read?, if_pos either, again]
    rfl
  · cases found

end StringLiteral

/-! Numbers -/

namespace Number

/-- A spelling that would take a point is a row of digits. -/
theorem digits_of_takesPoint {value : Number} (isSpelling : IsSpelling value.raw)
    (takes : Layout.takesPoint value = true) : ∀ b ∈ value.raw, Bytes.isDigit b = true := by
  rw [Layout.takesPoint, List.all_eq_true] at takes
  generalize value.raw = raw at isSpelling takes
  cases isSpelling with
  | hex marks =>
    rcases marks with rfl | rfl
    · cases takes 0x78 (by simp)
    · cases takes 0x58 (by simp)
  | decimal isMantissa isExponent =>
    cases isExponent with
    | some marks =>
      rcases marks with rfl | rfl
      · cases takes 0x65 (by simp)
      · cases takes 0x45 (by simp)
    | none =>
      cases isMantissa with
      | whole _ all => simpa using all
      | point => cases takes 0x2E (by simp)

/-- A point goes on with a row of digits. -/
theorem lt_width_point {digits : Bytes} (nonempty : digits ≠ []) (all : ∀ b ∈ digits, Bytes.isDigit b = true)
    (rest : Bytes) : digits.length < width (digits ++ 0x2E :: rest) := by
  have mantissa : mantissaWidth (digits ++ 0x2E :: rest) = digits.length + 1 + digitsWidth rest := by
    rw [mantissaWidth, digitsWidth_append all (by rintro b ⟨⟩; rfl), List.drop_left]
    exact if_neg fun both => nonempty (List.length_eq_zero_iff.mp both.1)
  have unmarked : afterHexMarker? (digits ++ 0x2E :: rest) = none := by
    obtain _ | ⟨first, digits⟩ := digits
    · exact absurd rfl nonempty
    refine afterHexMarker?_eq_none fun b second => ?_
    obtain _ | ⟨next, digits⟩ := digits
    · cases second
      decide
    · cases second
      have digit := all b (by simp)
      refine ⟨?_, ?_⟩ <;> (rintro rfl; cases digit)
  rw [width, unmarked]
  simp only [decimalWidth, mantissa]
  rw [if_neg (by omega)]
  omega

/-- A number that would take a point has none behind it. -/
theorem noPoint_of_read? {value : Number} {rest : Bytes} (found : read? (value.raw ++ rest) = some value) :
    Layout.takesPoint value = true → ∀ b ∈ rest.head?, b ≠ 0x2E := by
  rintro takes _ first rfl
  obtain ⟨tail, rfl⟩ := List.head?_eq_some_iff.mp first
  have isSpelling := (read?_eq_some found).1
  have longer := lt_width_point isSpelling.ne_nil (digits_of_takesPoint isSpelling takes) tail
  rw [read?_eq] at found
  split at found
  · cases found
  · have length := congrArg (List.length ·.raw) (Option.some.inj found)
    simp only [List.length_take, List.length_append, List.length_cons] at length
    omega

end Number

/-! Comments -/

namespace Trivia

theorem blockRest?_pair (rest : Bytes) : blockRest? (0x2A :: 0x2F :: rest) = some ⟨2, false⟩ := by
  rw [blockRest?]

theorem blockRest?_cons {b : UInt8} {rest : Bytes} (going : ¬ (b = 0x2A ∧ rest.head? = some 0x2F)) :
    blockRest? (b :: rest) =
      (blockRest? rest).map fun gap => ⟨gap.width + 1, atLineTerminator (b :: rest) || gap.newline⟩ := by
  rw [blockRest?]
  rintro tail rfl rfl
  exact going ⟨rfl, rfl⟩

/-- A block comment is read up to its closing, and the same whatever follows that. -/
theorem blockRest?_eq_some {bytes : Bytes} {gap : Gap} (found : blockRest? bytes = some gap) :
    ∃ body rest, bytes = body ++ rest ∧ gap.width = body.length ∧ 2 ≤ body.length ∧
      ∀ rest', blockRest? (body ++ rest') = some gap := by
  induction bytes generalizing gap with
  | nil => cases found
  | cons b bytes ih =>
    by_cases closing : b = 0x2A ∧ bytes.head? = some 0x2F
    · obtain ⟨rfl, next⟩ := closing
      obtain ⟨tail, rfl⟩ := List.head?_eq_some_iff.mp next
      rw [blockRest?_pair] at found
      cases found
      exact ⟨[0x2A, 0x2F], tail, rfl, rfl, Nat.le_refl _, blockRest?_pair⟩
    · rw [blockRest?_cons closing] at found
      obtain ⟨inner, foundInner, rfl⟩ := Option.map_eq_some_iff.mp found
      obtain ⟨body, rest, rfl, width, enough, again⟩ := ih foundInner
      refine ⟨b :: body, rest, rfl, congrArg (· + 1) width, by simp; omega, fun rest' => ?_⟩
      have heads : (body ++ rest').head? = (body ++ rest).head? := by
        obtain _ | ⟨first, body⟩ := body
        · cases enough
        · rfl
      have lines : atLineTerminator (b :: (body ++ rest')) = atLineTerminator (b :: (body ++ rest)) := by
        rw [Bool.eq_iff_iff, atLineTerminator_cons, atLineTerminator_cons, List.take_append_of_le_length enough,
          List.take_append_of_le_length enough]
      rw [List.cons_append, blockRest?_cons (by rwa [heads]), again, Option.map_some, lines]

/-- A line ends at its terminator or with the bytes. -/
theorem behind_line (bytes : Bytes) :
    bytes.drop (lineWidth bytes) = [] ∨ atLineTerminator (bytes.drop (lineWidth bytes)) = true := by
  induction bytes with
  | nil => exact .inl rfl
  | cons b rest ih =>
    rw [lineWidth]
    split
    · rename_i ends
      exact .inr ends
    · exact ih

/-- The rest of a line is as long in front of other bytes, if these end the line too and make no terminator
with what stands before. -/
theorem lineWidth_behind {body rest rest' : Bytes} (found : lineWidth (body ++ rest) = body.length)
    (ends : rest' = [] ∨ atLineTerminator rest' = true)
    (stays : ∀ part, part ≠ [] → atLineTerminator (part ++ rest) = false → atLineTerminator (part ++ rest') = false) :
    lineWidth (body ++ rest') = body.length := by
  induction body with
  | nil =>
    rcases ends with rfl | ends
    · rfl
    · obtain _ | ⟨b, rest'⟩ := rest'
      · rfl
      · rw [List.nil_append, lineWidth, ends]
        rfl
  | cons b body ih =>
    rw [List.cons_append, lineWidth] at found ⊢
    split at found
    · cases found
    · rename_i inLine
      rw [Bool.not_eq_true] at inLine
      rw [← List.cons_append, stays (b :: body) (List.cons_ne_nil b body) inLine, if_neg Bool.false_ne_true,
        ih (Nat.succ.inj found)]
      rfl

end Trivia

end EcmaFold
