import EcmaFold.Proofs.Lexer.Spelling
import EcmaFold.Tree.Layout

/-!
How numbers are spelled, and that what is read as a number is read as the same number wherever it is followed
by something that does not go on with it.
-/

namespace EcmaFold

namespace Name

theorem goesOn_ascii {b : UInt8} (rest : Bytes) (ascii : b < 0x80) :
    goesOn (b :: rest) = isPart (Char.ofNat b.toNat) := by
  rw [goesOn, Utf8.decode?_ascii rest ascii]

/-- Digits, hexadecimal ones among them, and the hexadecimal marker go on with a name. -/
theorem head_of_not_goesOn {rest : Bytes} (stops : goesOn rest = false) :
    ∀ b ∈ rest.head?, Bytes.isHexDigit b = false ∧ b ≠ 0x78 ∧ b ≠ 0x58 := by
  have table : ∀ b : UInt8, (Bytes.isHexDigit b || b = 0x78 || b = 0x58) = true →
      b < 0x80 ∧ isPart (Char.ofNat b.toNat) = true := by
    refine Bytes.forall_byte ?_
    decide +kernel
  rintro b first
  cases rest with
  | nil => cases first
  | cons b' rest =>
    cases first
    cases word : (Bytes.isHexDigit b || b = 0x78 || b = 0x58) with
    | false => simpa [and_assoc] using word
    | true =>
      obtain ⟨ascii, part⟩ := table b word
      rw [goesOn_ascii rest ascii, part] at stops
      cases stops

end Name

namespace Number

open Bytes (isDigit isHexDigit)

theorem isDigit_of_not_hex {b : UInt8} (other : isHexDigit b = false) : isDigit b = false := by
  refine Bool.eq_false_iff.mpr fun digit => ?_
  have within : 48 ≤ b ∧ b ≤ 57 := by simpa [isDigit] using digit
  rw [isHexDigit, Bytes.hexValue?, if_pos within] at other
  cases other

theorem takeWhile_append {p : UInt8 → Bool} {inside rest : Bytes} (all : ∀ b ∈ inside, p b = true)
    (ends : ∀ b ∈ rest.head?, p b = false) : (inside ++ rest).takeWhile p = inside := by
  rw [List.takeWhile_append_of_pos all]
  cases rest with
  | nil => simp
  | cons b rest => simp [ends b rfl]

theorem digitsWidth_append {digits rest : Bytes} (all : ∀ b ∈ digits, isDigit b = true)
    (ends : ∀ b ∈ rest.head?, isDigit b = false) : digitsWidth (digits ++ rest) = digits.length := by
  rw [digitsWidth, takeWhile_append all ends]

/-- The bytes begin with bytes of a class, as many as there are. -/
theorem exists_takeWhile (p : UInt8 → Bool) (bytes : Bytes) : ∃ inside rest, bytes = inside ++ rest ∧
    (∀ b ∈ inside, p b = true) ∧ ∀ b ∈ rest.head?, p b = false := by
  induction bytes with
  | nil => exact ⟨[], [], rfl, by simp, by simp⟩
  | cons b bytes ih =>
    cases holds : p b with
    | false => exact ⟨[], b :: bytes, rfl, by simp, by simpa using holds⟩
    | true =>
      obtain ⟨inside, rest, rfl, all, ends⟩ := ih
      exact ⟨b :: inside, rest, rfl, List.forall_mem_cons.mpr ⟨holds, all⟩, ends⟩

/-- The spelling of an exponent, which may be missing. -/
inductive IsExponent : Bytes → Prop where
  | none : IsExponent []
  | some {marker : UInt8} {sign digits : Bytes} (marks : marker = 0x65 ∨ marker = 0x45)
      (signs : sign = [] ∨ sign = [0x2B] ∨ sign = [0x2D]) (nonempty : digits ≠ [])
      (all : ∀ b ∈ digits, isDigit b = true) : IsExponent (marker :: (sign ++ digits))

/-- The spelling of a decimal without exponent. -/
inductive IsMantissa : Bytes → Prop where
  | whole {digits : Bytes} (nonempty : digits ≠ []) (all : ∀ b ∈ digits, isDigit b = true) : IsMantissa digits
  | point {whole fraction : Bytes} (nonempty : whole ≠ [] ∨ fraction ≠ [])
      (allWhole : ∀ b ∈ whole, isDigit b = true) (allFraction : ∀ b ∈ fraction, isDigit b = true) :
      IsMantissa (whole ++ 0x2E :: fraction)

/-- The spelling of a number. -/
inductive IsSpelling : Bytes → Prop where
  | hex {marker : UInt8} {digits : Bytes} (marks : marker = 0x78 ∨ marker = 0x58) (nonempty : digits ≠ [])
      (all : ∀ b ∈ digits, isHexDigit b = true) : IsSpelling (0x30 :: marker :: digits)
  | decimal {mantissa exponent : Bytes} (isMantissa : IsMantissa mantissa) (isExponent : IsExponent exponent) :
      IsSpelling (mantissa ++ exponent)

/-! Reading a spelling in front of other bytes -/

theorem exponentWidth_append {exponent rest : Bytes} (spelling : IsExponent exponent)
    (ends : ∀ b ∈ rest.head?, isHexDigit b = false) : exponentWidth (exponent ++ rest) = exponent.length := by
  cases spelling with
  | none =>
    cases rest with
    | nil => rfl
    | cons b rest =>
      have noMarker : ¬ (b = 0x65 ∨ b = 0x45) := by
        rintro (rfl | rfl) <;> cases ends _ rfl
      simp [exponentWidth, noMarker]
  | @some marker sign digits marks signs nonempty all =>
    have widths := digitsWidth_append all fun b first => isDigit_of_not_hex (ends b first)
    have positive : digits.length ≠ 0 := fun empty => nonempty (List.length_eq_zero_iff.mp empty)
    obtain _ | ⟨first, more⟩ := digits
    · exact absurd rfl nonempty
    have noSign : ¬ (first = 0x2B ∨ first = 0x2D) := by
      have digit := all first List.mem_cons_self
      rintro (rfl | rfl) <;> cases digit
    rcases signs with rfl | rfl | rfl
    · simp_all [exponentWidth]
      omega
    · simp_all [exponentWidth]
      omega
    · simp_all [exponentWidth]
      omega

theorem mantissaWidth_append {mantissa rest : Bytes} (spelling : IsMantissa mantissa)
    (ends : ∀ b ∈ rest.head?, isDigit b = false) (noPoint : 0x2E ∉ mantissa → ∀ b ∈ rest.head?, b ≠ 0x2E) :
    mantissaWidth (mantissa ++ rest) = mantissa.length := by
  cases spelling with
  | whole nonempty all =>
    have plain : (0x2E : UInt8) ∉ mantissa := by
      intro member
      cases all _ member
    rw [mantissaWidth, digitsWidth_append all ends, List.drop_left]
    split
    · exact absurd rfl (noPoint plain 0x2E rfl)
    · rfl
  | @point whole fraction nonempty allWhole allFraction =>
    rw [mantissaWidth, List.append_assoc, List.cons_append,
      digitsWidth_append allWhole (by rintro b ⟨⟩; rfl), List.drop_left]
    simp only [digitsWidth_append allFraction ends, List.length_eq_zero_iff]
    rw [if_neg (by rintro ⟨rfl, rfl⟩; simp at nonempty)]
    simp only [List.length_append, List.length_cons]
    omega

theorem IsMantissa.ne_nil {mantissa : Bytes} (spelling : IsMantissa mantissa) : mantissa ≠ [] := by
  cases spelling with
  | whole nonempty => exact nonempty
  | point => simp

theorem IsSpelling.ne_nil {spelling : Bytes} (isSpelling : IsSpelling spelling) : spelling ≠ [] := by
  cases isSpelling with
  | hex => simp
  | decimal isMantissa => simp [isMantissa.ne_nil]

/-- A digit is none of the other bytes of a number. -/
theorem byte_of_digit {b : UInt8} (digit : isDigit b = true) :
    (b ≠ 0x78 ∧ b ≠ 0x58) ∧ b ≠ 0x2E ∧ b ≠ 0x65 ∧ b ≠ 0x45 := by
  refine ⟨⟨?_, ?_⟩, ?_, ?_, ?_⟩ <;> (rintro rfl; exact absurd digit (by decide))

theorem IsMantissa.no_marker {mantissa : Bytes} (spelling : IsMantissa mantissa) :
    ∀ b ∈ mantissa, b ≠ 0x78 ∧ b ≠ 0x58 := by
  cases spelling with
  | whole _ all => exact fun b member => (byte_of_digit (all b member)).1
  | point _ allWhole allFraction =>
    intro b member
    rcases List.mem_append.mp member with inWhole | inRest
    · exact (byte_of_digit (allWhole b inWhole)).1
    · rcases List.mem_cons.mp inRest with rfl | inFraction
      · decide
      · exact (byte_of_digit (allFraction b inFraction)).1

theorem afterHexMarker?_eq_none {first : UInt8} {rest : Bytes}
    (noMarker : ∀ b ∈ rest.head?, b ≠ 0x78 ∧ b ≠ 0x58) : afterHexMarker? (first :: rest) = none := by
  unfold afterHexMarker?
  split
  · rename_i same
    cases same
    exact absurd rfl (noMarker _ rfl).1
  · rename_i same
    cases same
    exact absurd rfl (noMarker _ rfl).2
  · rfl

theorem afterHexMarker?_eq_some {bytes behind : Bytes} (marked : afterHexMarker? bytes = some behind) :
    ∃ marker, (marker = 0x78 ∨ marker = 0x58) ∧ bytes = 0x30 :: marker :: behind := by
  unfold afterHexMarker? at marked
  split at marked
  · cases marked
    exact ⟨_, .inl rfl, rfl⟩
  · cases marked
    exact ⟨_, .inr rfl, rfl⟩
  · cases marked

/-- The bytes do not go on with a number: at most a point follows. -/
def Ends (rest : Bytes) : Prop := ∀ b ∈ rest.head?, isHexDigit b = false ∧ b ≠ 0x78 ∧ b ≠ 0x58

theorem decimalWidth_append {mantissa exponent rest : Bytes} (isMantissa : IsMantissa mantissa)
    (isExponent : IsExponent exponent) (ends : Ends rest)
    (noPoint : 0x2E ∉ mantissa → exponent = [] → ∀ b ∈ rest.head?, b ≠ 0x2E) :
    decimalWidth (mantissa ++ exponent ++ rest) = (mantissa ++ exponent).length := by
  have widths : mantissaWidth (mantissa ++ (exponent ++ rest)) = mantissa.length := by
    cases isExponent with
    | none =>
      refine mantissaWidth_append isMantissa (fun b first => isDigit_of_not_hex (ends b first).1) ?_
      exact fun plain => noPoint plain rfl
    | some marks =>
      refine mantissaWidth_append isMantissa ?_ fun _ => ?_
      · rintro b ⟨⟩
        rcases marks with rfl | rfl <;> rfl
      · rintro b ⟨⟩
        rcases marks with rfl | rfl <;> decide
  have nonempty : mantissa.length ≠ 0 := by simpa using isMantissa.ne_nil
  simp only [decimalWidth, List.append_assoc, widths, nonempty, if_false, List.drop_left]
  rw [exponentWidth_append isExponent fun b first => (ends b first).1, List.length_append]

/-- A number is as long as its spelling if nothing goes on with it. -/
theorem width_append {spelling rest : Bytes} (isSpelling : IsSpelling spelling) (ends : Ends rest)
    (noPoint : Layout.takesPoint ⟨spelling, valueOf spelling⟩ = true → ∀ b ∈ rest.head?, b ≠ 0x2E) :
    width (spelling ++ rest) = spelling.length := by
  cases isSpelling with
  | @hex marker digits marks nonempty all =>
    have marked : afterHexMarker? (0x30 :: marker :: (digits ++ rest)) = some (digits ++ rest) := by
      rcases marks with rfl | rfl <;> rfl
    have positive : digits.length ≠ 0 := by simpa using nonempty
    simp [width, marked, takeWhile_append all fun b first => (ends b first).1, positive]
  | @decimal mantissa exponent isMantissa isExponent =>
    have unmarked : afterHexMarker? (mantissa ++ exponent ++ rest) = none := by
      obtain _ | ⟨first, mantissa⟩ := mantissa
      · exact absurd rfl isMantissa.ne_nil
      refine afterHexMarker?_eq_none ?_
      intro b second
      obtain _ | ⟨b', mantissa⟩ := mantissa
      · cases isExponent with
        | none => exact (ends b second).2
        | some marks =>
          cases second
          rcases marks with rfl | rfl <;> decide
      · cases second
        exact isMantissa.no_marker b (by simp)
    rw [width, unmarked]
    refine decimalWidth_append isMantissa isExponent ends fun plain empty => noPoint ?_
    subst empty
    cases isMantissa with
    | point => simp at plain
    | whole _ all =>
      rw [Layout.takesPoint, List.append_nil, List.all_eq_true]
      intro b member
      obtain ⟨⟨noHex, noHex'⟩, noPoint, noMarker, noMarker'⟩ := byte_of_digit (all b member)
      simp [noHex, noHex', noPoint, noMarker, noMarker']

/-! Reading gives a spelling -/

theorem exists_exponent (bytes : Bytes) : ∃ exponent rest, bytes = exponent ++ rest ∧
    IsExponent exponent ∧ exponentWidth bytes = exponent.length := by
  obtain _ | ⟨marker, bytes⟩ := bytes
  · exact ⟨[], [], rfl, .none, rfl⟩
  by_cases marks : marker = 0x65 ∨ marker = 0x45
  · obtain ⟨sign, unsigned, rfl, signs, widths⟩ : ∃ sign unsigned, bytes = sign ++ unsigned ∧
        (sign = [] ∨ sign = [0x2B] ∨ sign = [0x2D]) ∧ exponentWidth (marker :: bytes) =
          if digitsWidth unsigned = 0 then 0 else 1 + sign.length + digitsWidth unsigned := by
      obtain _ | ⟨b, bytes⟩ := bytes
      · exact ⟨[], [], rfl, .inl rfl, by simp [exponentWidth, digitsWidth]⟩
      · by_cases isSign : b = 0x2B ∨ b = 0x2D
        · refine ⟨[b], bytes, rfl, ?_, by simp [exponentWidth, marks, isSign]⟩
          rcases isSign with rfl | rfl <;> simp
        · exact ⟨[], b :: bytes, rfl, .inl rfl, by simp [exponentWidth, marks, isSign]⟩
    obtain ⟨digits, rest, rfl, all, ends⟩ := exists_takeWhile isDigit unsigned
    rw [digitsWidth_append all ends] at widths
    rw [widths]
    by_cases empty : digits = []
    · exact ⟨[], _, rfl, .none, by simp [empty]⟩
    · refine ⟨marker :: (sign ++ digits), rest, by simp, .some marks signs empty all, ?_⟩
      rw [if_neg (by simpa using empty)]
      simp only [List.length_cons, List.length_append]
      omega
  · exact ⟨[], marker :: bytes, rfl, .none, by simp [exponentWidth, marks]⟩

theorem exists_mantissa {bytes : Bytes} (found : mantissaWidth bytes ≠ 0) : ∃ mantissa rest,
    bytes = mantissa ++ rest ∧ IsMantissa mantissa ∧ mantissaWidth bytes = mantissa.length := by
  obtain ⟨whole, rest, rfl, all, ends⟩ := exists_takeWhile isDigit bytes
  by_cases point : ∃ behind, rest = 0x2E :: behind
  · obtain ⟨behind, rfl⟩ := point
    obtain ⟨fraction, rest, rfl, allFraction, endsFraction⟩ := exists_takeWhile isDigit behind
    have nonempty : whole ≠ [] ∨ fraction ≠ [] := by
      rw [← Decidable.not_and_iff_or_not]
      rintro ⟨rfl, rfl⟩
      have noWhole : digitsWidth (0x2E :: rest) = 0 := @digitsWidth_append [] (0x2E :: rest) (by simp) ends
      have noFraction : digitsWidth rest = 0 := @digitsWidth_append [] rest (by simp) endsFraction
      simp [mantissaWidth, noWhole, noFraction] at found
    have isMantissa : IsMantissa (whole ++ 0x2E :: fraction) := .point nonempty all allFraction
    refine ⟨whole ++ 0x2E :: fraction, rest, by simp, isMantissa, ?_⟩
    simpa using mantissaWidth_append isMantissa endsFraction (by simp)
  · have widths : mantissaWidth (whole ++ rest) = whole.length := by
      rw [mantissaWidth, digitsWidth_append all ends, List.drop_left]
      split
      · exact absurd ⟨_, rfl⟩ point
      · rfl
    rw [widths] at found
    exact ⟨whole, rest, rfl, .whole (by simpa using found) all, widths⟩

/-- What is read as a number begins with a spelling of that length. -/
theorem exists_spelling {bytes : Bytes} (found : width bytes ≠ 0) : ∃ spelling rest,
    bytes = spelling ++ rest ∧ IsSpelling spelling ∧ width bytes = spelling.length := by
  have decimal : decimalWidth bytes ≠ 0 → ∃ spelling rest,
      bytes = spelling ++ rest ∧ IsSpelling spelling ∧ decimalWidth bytes = spelling.length := by
    intro found
    have positive : mantissaWidth bytes ≠ 0 := by
      intro none
      simp [decimalWidth, none] at found
    obtain ⟨mantissa, behind, same, isMantissa, length⟩ := exists_mantissa positive
    obtain ⟨exponent, rest, rfl, isExponent, exponentLength⟩ := exists_exponent behind
    refine ⟨mantissa ++ exponent, rest, by simp [same], .decimal isMantissa isExponent, ?_⟩
    have nonempty : mantissa.length ≠ 0 := length ▸ positive
    simp only [decimalWidth, length, nonempty, if_false]
    rw [same, List.drop_left, exponentLength, List.length_append]
  unfold width at found ⊢
  split at found
  · rename_i behind marked
    obtain ⟨marker, marks, rfl⟩ := afterHexMarker?_eq_some marked
    obtain ⟨digits, rest, rfl, all, ends⟩ := exists_takeWhile isHexDigit behind
    simp only [takeWhile_append all ends] at found ⊢
    by_cases empty : digits = []
    · simp only [empty, List.length_nil, if_true] at found ⊢
      simpa [empty] using decimal (by simpa [empty] using found)
    · refine ⟨0x30 :: marker :: digits, rest, rfl, .hex marks empty all, ?_⟩
      rw [if_neg (by simpa using empty)]
      rfl
  · rename_i unmarked
    exact decimal found

/-! The longest spelling -/

theorem length_le_takeWhile {p : UInt8 → Bool} {inside : Bytes} (all : ∀ b ∈ inside, p b = true) (rest : Bytes) :
    inside.length ≤ ((inside ++ rest).takeWhile p).length := by
  rw [List.takeWhile_append_of_pos all, List.length_append]
  exact Nat.le_add_right _ _

theorem IsMantissa.length_le {mantissa : Bytes} (spelling : IsMantissa mantissa) (rest : Bytes) :
    mantissa.length ≤ mantissaWidth (mantissa ++ rest) := by
  cases spelling with
  | whole nonempty all =>
    have least : mantissa.length ≤ digitsWidth (mantissa ++ rest) := length_le_takeWhile all rest
    have positive : mantissa.length ≠ 0 := by simpa using nonempty
    rw [mantissaWidth]
    split
    · rw [if_neg (by omega)]
      omega
    · exact least
  | @point whole fraction nonempty allWhole allFraction =>
    have least : fraction.length ≤ digitsWidth (fraction ++ rest) := length_le_takeWhile allFraction rest
    have positive : ¬ (whole.length = 0 ∧ digitsWidth (fraction ++ rest) = 0) := by
      rintro ⟨noWhole, noFraction⟩
      rw [noFraction, Nat.le_zero, List.length_eq_zero_iff] at least
      rw [List.length_eq_zero_iff] at noWhole
      simp [noWhole, least] at nonempty
    rw [mantissaWidth, List.append_assoc, List.cons_append, digitsWidth_append allWhole (by rintro b ⟨⟩; rfl),
      List.drop_left]
    simp only [if_neg positive, List.length_append, List.length_cons]
    omega

/-- A decimal is at least as long as any spelling of one at its head. -/
theorem length_le_decimalWidth {mantissa exponent : Bytes} (isMantissa : IsMantissa mantissa)
    (isExponent : IsExponent exponent) (rest : Bytes) :
    (mantissa ++ exponent).length ≤ decimalWidth (mantissa ++ exponent ++ rest) := by
  have positive : mantissa.length ≠ 0 := by simpa using isMantissa.ne_nil
  cases isExponent with
  | none =>
    have least := isMantissa.length_le rest
    rw [List.append_nil, decimalWidth, if_neg (by omega)]
    omega
  | @some marker sign digits marks signs nonempty all =>
    -- Nothing but the marker follows, so it is this part that is found in front of the exponent.
    have widths : mantissaWidth (mantissa ++ (marker :: (sign ++ digits) ++ rest)) = mantissa.length := by
      refine mantissaWidth_append isMantissa ?_ fun _ => ?_
      · rintro b ⟨⟩
        rcases marks with rfl | rfl <;> rfl
      · rintro b ⟨⟩
        rcases marks with rfl | rfl <;> decide
    have least : digits.length ≤ digitsWidth (digits ++ rest) := length_le_takeWhile all rest
    have some : digits.length ≠ 0 := by simpa using nonempty
    obtain _ | ⟨first, more⟩ := digits
    · exact absurd rfl nonempty
    have noSign : ¬ (first = 0x2B ∨ first = 0x2D) := by
      have digit := all first List.mem_cons_self
      rintro (rfl | rfl) <;> cases digit
    have exponents : (marker :: (sign ++ first :: more)).length ≤
        exponentWidth (marker :: (sign ++ first :: more) ++ rest) := by
      rcases signs with rfl | rfl | rfl <;> simp_all [exponentWidth] <;> split <;> omega
    rw [List.append_assoc, decimalWidth, widths, if_neg positive, List.drop_left, List.length_append]
    omega

theorem IsExponent.no_marker {exponent : Bytes} (spelling : IsExponent exponent) :
    ∀ b ∈ exponent, b ≠ 0x78 ∧ b ≠ 0x58 := by
  cases spelling with
  | none => exact List.forall_mem_nil _
  | some marks signs _ all =>
    refine List.forall_mem_cons.mpr ⟨?_, List.forall_mem_append.mpr ⟨?_, fun b member => ?_⟩⟩
    · rcases marks with rfl | rfl <;> decide
    · rcases signs with rfl | rfl | rfl <;> simp
    · exact (byte_of_digit (all b member)).1

/-- A number is at least as long as any spelling of one at its head. -/
theorem IsSpelling.length_le_width {spelling : Bytes} (isSpelling : IsSpelling spelling) (rest : Bytes) :
    spelling.length ≤ width (spelling ++ rest) := by
  cases isSpelling with
  | @hex marker digits marks nonempty all =>
    have marked : afterHexMarker? (0x30 :: marker :: digits ++ rest) = some (digits ++ rest) := by
      rcases marks with rfl | rfl <;> rfl
    have least : digits.length ≤ ((digits ++ rest).takeWhile isHexDigit).length := length_le_takeWhile all rest
    have positive : digits.length ≠ 0 := by simpa using nonempty
    simp only [width, marked, List.length_cons]
    rw [if_neg (by omega)]
    omega
  | @decimal mantissa exponent isMantissa isExponent =>
    have decimal := length_le_decimalWidth isMantissa isExponent rest
    rw [width]
    split
    · -- Behind the marker nothing can belong to a decimal, so that one is the zero alone.
      rename_i behind marked
      obtain ⟨marker, marks, same⟩ := afterHexMarker?_eq_some marked
      have short : (mantissa ++ exponent).length ≤ 1 := by
        refine Nat.not_lt.mp fun long => ?_
        have second : (mantissa ++ exponent)[1]? = some marker := calc
          _ = (mantissa ++ exponent ++ rest)[1]? := (List.getElem?_append_left long).symm
          _ = some marker := congrArg (·[1]?) same
        have member := List.mem_of_getElem? second
        have plain : marker ≠ 0x78 ∧ marker ≠ 0x58 := by
          rcases List.mem_append.mp member with inMantissa | inExponent
          · exact isMantissa.no_marker _ inMantissa
          · exact isExponent.no_marker _ inExponent
        exact marks.elim plain.1 plain.2
      dsimp only
      split <;> omega
    · exact decimal

/-! The window -/

/-- What may begin a number may stand anywhere in it. -/
theorem belongs_of_first {b : UInt8} (first : belongs 0 b = true) (before : UInt8) : belongs before b = true := by
  rw [belongs, Bool.or_eq_true] at first ⊢
  exact first.imp_right fun sign => absurd (Bool.and_eq_true_iff.mp sign).2 (by decide)

theorem belongs_of_hexDigit {b : UInt8} (digit : isHexDigit b = true) : belongs 0 b = true := by
  have table : ∀ b : UInt8, isHexDigit b = true → belongs 0 b = true := by
    refine Bytes.forall_byte ?_
    decide +kernel
  exact table b digit

theorem belongs_of_digit {b : UInt8} (digit : isDigit b = true) : belongs 0 b = true := by
  have table : ∀ b : UInt8, isDigit b = true → belongs 0 b = true := by
    refine Bytes.forall_byte ?_
    decide +kernel
  exact table b digit

theorem windowFrom_cons {before b : UInt8} (inside : belongs before b = true) (rest : Bytes) :
    windowFrom before (b :: rest) = b :: windowFrom b rest := by
  rw [windowFrom, if_pos inside]

/-- The window goes on for as long as the bytes could begin a number. -/
theorem exists_windowFrom_append {text : Bytes} (all : ∀ b ∈ text, belongs 0 b = true) (before : UInt8) (rest : Bytes) :
    ∃ last, windowFrom before (text ++ rest) = text ++ windowFrom last rest := by
  induction text generalizing before with
  | nil => exact ⟨before, rfl⟩
  | cons b text ih =>
    obtain ⟨first, others⟩ := List.forall_mem_cons.mp all
    obtain ⟨last, behind⟩ := ih others b
    exact ⟨last, by rw [List.cons_append, windowFrom_cons (belongs_of_first first before), behind, List.cons_append]⟩

theorem IsMantissa.belongs {mantissa : Bytes} (spelling : IsMantissa mantissa) :
    ∀ b ∈ mantissa, Number.belongs 0 b = true := by
  cases spelling with
  | whole _ all => exact fun b member => belongs_of_digit (all b member)
  | point _ allWhole allFraction =>
    refine List.forall_mem_append.mpr ⟨fun b member => belongs_of_digit (allWhole b member), ?_⟩
    exact List.forall_mem_cons.mpr ⟨by decide, fun b member => belongs_of_digit (allFraction b member)⟩

/-- A spelling lies in the window as a whole: the sign of an exponent stands behind its marker. -/
theorem IsSpelling.exists_window {spelling : Bytes} (isSpelling : IsSpelling spelling) (rest : Bytes) :
    ∃ last, window (spelling ++ rest) = spelling ++ windowFrom last rest := by
  cases isSpelling with
  | @hex marker digits marks _ all =>
    refine exists_windowFrom_append ?_ 0 rest
    refine List.forall_mem_cons.mpr ⟨by decide, List.forall_mem_cons.mpr ⟨?_, ?_⟩⟩
    · rcases marks with rfl | rfl <;> decide
    · exact fun b member => belongs_of_hexDigit (all b member)
  | @decimal mantissa exponent isMantissa isExponent =>
    obtain ⟨before, front⟩ := exists_windowFrom_append isMantissa.belongs 0 (exponent ++ rest)
    rw [window, List.append_assoc, front]
    suffices behind : ∃ last, windowFrom before (exponent ++ rest) = exponent ++ windowFrom last rest by
      obtain ⟨last, behind⟩ := behind
      exact ⟨last, by rw [behind, List.append_assoc]⟩
    cases isExponent with
    | none => exact ⟨before, rfl⟩
    | @some marker sign digits marks signs _ all =>
      have digitsBelong : ∀ b ∈ digits, belongs 0 b = true := fun b member => belongs_of_digit (all b member)
      have markerBelongs : belongs before marker = true := by
        refine belongs_of_first ?_ before
        rcases marks with rfl | rfl <;> decide
      have signed : ∃ last, windowFrom marker (sign ++ digits ++ rest) = sign ++ digits ++ windowFrom last rest := by
        rcases signs with rfl | rfl | rfl
        · exact exists_windowFrom_append digitsBelong marker rest
        all_goals
          obtain ⟨last, behind⟩ := exists_windowFrom_append digitsBelong _ rest
          refine ⟨last, ?_⟩
          rw [List.append_assoc, List.singleton_append, windowFrom_cons, behind]
          · simp
          · rcases marks with rfl | rfl <;> decide
      obtain ⟨last, behind⟩ := signed
      exact ⟨last, by rw [List.cons_append, windowFrom_cons markerBelongs, behind, List.cons_append]⟩

theorem windowFrom_prefix (before : UInt8) (bytes : Bytes) : windowFrom before bytes <+: bytes := by
  induction bytes generalizing before with
  | nil => exact List.prefix_refl _
  | cons b rest ih =>
    rw [windowFrom]
    split
    · exact List.cons_prefix_cons.mpr ⟨rfl, ih b⟩
    · exact List.nil_prefix

/-- The window shows the spelling at the head of the bytes as a whole and no longer one. -/
theorem width_window (bytes : Bytes) : width (window bytes) = width bytes := by
  apply Nat.le_antisymm
  · by_cases none : width (window bytes) = 0
    · rw [none]
      exact Nat.zero_le _
    · obtain ⟨spelling, rest, inWindow, isSpelling, length⟩ := exists_spelling none
      obtain ⟨behind, whole⟩ := windowFrom_prefix 0 bytes
      have least := isSpelling.length_le_width (rest ++ behind)
      rwa [← List.append_assoc, ← inWindow, window, whole, ← length, window] at least
  · by_cases none : width bytes = 0
    · rw [none]
      exact Nat.zero_le _
    · obtain ⟨spelling, rest, rfl, isSpelling, length⟩ := exists_spelling none
      obtain ⟨last, inWindow⟩ := isSpelling.exists_window rest
      rw [length, inWindow]
      exact isSpelling.length_le_width _

theorem take_window (bytes : Bytes) :
    (window bytes).take (width bytes) = bytes.take (width bytes) ∧ width bytes ≤ bytes.length := by
  by_cases none : width bytes = 0
  · simp [none]
  · obtain ⟨spelling, rest, rfl, isSpelling, length⟩ := exists_spelling none
    obtain ⟨last, inWindow⟩ := isSpelling.exists_window rest
    rw [length, inWindow, List.take_left, List.take_left, List.length_append]
    exact ⟨rfl, Nat.le_add_right _ _⟩

/-- What a matcher reads that refuses some widths, without the window. -/
theorem readBy?_eq {find? : Bytes → Option Nat} {refuses : Nat → Prop} [DecidablePred refuses]
    (finds : ∀ text, find? text = if refuses (width text) then none else some (width text)) (bytes : Bytes) :
    readBy? find? bytes =
      if refuses (width bytes) ∨ Name.goesOn (bytes.drop (width bytes)) then none
      else some ⟨bytes.take (width bytes), valueOf (bytes.take (width bytes))⟩ := by
  obtain ⟨raw, fits⟩ := take_window bytes
  unfold readBy?
  simp only [finds, width_window]
  by_cases refused : refuses (width bytes)
  · simp only [refused, if_true, true_or]
  · simp only [refused, if_false, raw, List.length_take_of_le fits, false_or]

/-- The number at the head of the bytes, without the window. -/
theorem read?_eq (bytes : Bytes) : read? bytes =
    if (width bytes = 0 ∨ matcherReach < width bytes) ∨ Name.goesOn (bytes.drop (width bytes)) then none
    else some ⟨bytes.take (width bytes), valueOf (bytes.take (width bytes))⟩ :=
  @readBy?_eq find? (fun width => width = 0 ∨ matcherReach < width) _ (fun _ => rfl) bytes

theorem read?_eq_some {bytes : Bytes} {number : Number} (found : read? bytes = some number) :
    IsSpelling number.raw ∧ number.raw.length ≤ matcherReach ∧ number = ⟨number.raw, valueOf number.raw⟩ ∧
      ∃ rest, bytes = number.raw ++ rest ∧ Name.goesOn rest = false := by
  rw [read?_eq] at found
  split at found
  · cases found
  · rename_i accepted
    simp only [not_or, Bool.not_eq_true, Nat.not_lt] at accepted
    obtain ⟨⟨positive, short⟩, stops⟩ := accepted
    obtain ⟨spelling, rest, rfl, isSpelling, length⟩ := exists_spelling positive
    rw [length] at short stops found
    rw [List.drop_left] at stops
    rw [List.take_left] at found
    cases found
    exact ⟨isSpelling, short, rfl, rest, rfl, stops⟩

theorem read?_append {number : Number} {rest : Bytes} (clean : read? number.raw = some number)
    (stops : Name.goesOn rest = false)
    (noPoint : Layout.takesPoint number = true → ∀ b ∈ rest.head?, b ≠ 0x2E) :
    read? (number.raw ++ rest) = some number := by
  obtain ⟨isSpelling, short, value, -⟩ := read?_eq_some clean
  have length : width (number.raw ++ rest) = number.raw.length := by
    refine width_append isSpelling (Name.head_of_not_goesOn stops) ?_
    rwa [← value]
  have positive : number.raw.length ≠ 0 := by simpa using isSpelling.ne_nil
  rw [read?_eq, length, List.drop_left, List.take_left, if_neg (by simp [positive, stops, short]), ← value]

theorem read?_self {bytes : Bytes} {number : Number} (found : read? bytes = some number) :
    read? number.raw = some number := by
  obtain ⟨isSpelling, short, value, -⟩ := read?_eq_some found
  have length : width (number.raw ++ []) = number.raw.length :=
    width_append isSpelling (by simp [Ends]) (by simp)
  have positive : number.raw.length ≠ 0 := by simpa using isSpelling.ne_nil
  rw [List.append_nil] at length
  rw [read?_eq, length, List.drop_length, List.take_length,
    if_neg (by simp [positive, short, Name.goesOn, Utf8.decode?]), ← value]

end Number

end EcmaFold
