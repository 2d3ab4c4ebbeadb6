import EcmaFold.Proofs.Lexer.Placement

/-!
Lines and lexemes. Where a lexeme does not tell of a line terminator before it, no line begins between it and the
lexeme before, in blanks or in comments.
-/

namespace EcmaFold

/-! Line terminators -/

/-- A line terminator consists of line feeds, carriage returns and wide bytes. -/
theorem lineTerminator?_bytes {bytes : Bytes} {width k : Nat} (found : lineTerminator? bytes = some width)
    (inside : k < width) : ∃ b rest, bytes.drop k = b :: rest ∧ (b = 0x0A ∨ b = 0x0D ∨ 0x80 ≤ b) := by
  unfold lineTerminator? at found
  split at found <;> cases found
  · obtain rfl : k = 0 := by omega
    exact ⟨_, _, rfl, .inl rfl⟩
  · obtain rfl | rfl : k = 0 ∨ k = 1 := by omega
    · exact ⟨_, _, rfl, .inr (.inl rfl)⟩
    · exact ⟨_, _, rfl, .inl rfl⟩
  · obtain rfl : k = 0 := by omega
    exact ⟨_, _, rfl, .inr (.inl rfl)⟩
  all_goals
    obtain rfl | rfl | rfl : k = 0 ∨ k = 1 ∨ k = 2 := by omega
    all_goals exact ⟨_, _, rfl, .inr (.inr (by decide))⟩

/-- No character begins inside a line terminator, but for the line feed behind a carriage return. -/
theorem lineTerminator?_inner {bytes : Bytes} {width k : Nat} (found : lineTerminator? bytes = some width)
    (positive : 0 < k) (inside : k < width) :
    ∃ b rest, bytes.drop k = b :: rest ∧ (b = 0x0A ∨ 0x80 ≤ b ∧ b < 0xC0) := by
  unfold lineTerminator? at found
  split at found <;> cases found
  · omega
  · obtain rfl : k = 1 := by omega
    exact ⟨_, _, rfl, .inl rfl⟩
  · omega
  all_goals
    obtain rfl | rfl : k = 1 ∨ k = 2 := by omega
    all_goals exact ⟨_, _, rfl, .inr (by decide)⟩

/-- No line begins behind the place `low` up to the place `high`. -/
def Unbroken (source : Bytes) (low high : Nat) : Prop :=
  ∀ place width, lineTerminator? (source.drop place) = some width → place + width ≤ low ∨ high < place + width

namespace Unbroken

variable {source : Bytes} {low between high : Nat}

theorem refl (source : Bytes) (low : Nat) : Unbroken source low low := fun _ _ _ => Nat.lt_or_ge low _ |>.symm

theorem trans (first : Unbroken source low between) (second : Unbroken source between high) :
    Unbroken source low high := by
  intro place width found
  rcases second place width found with before | behind
  · exact (first place width found).imp_right fun behind => absurd before (Nat.not_le.mpr behind)
  · exact .inr behind

/-- Characters that cannot be part of a line terminator. -/
theorem of_plain {text rest : Bytes} (atLow : source.drop low = text ++ rest)
    (plain : ∀ b ∈ text, b ≠ 0x0A ∧ b ≠ 0x0D ∧ b < 0x80) : Unbroken source low (low + text.length) := by
  intro place width found
  refine Decidable.byContradiction fun reaches => ?_
  have positive := StringLiteral.lineTerminator?_pos found
  -- The last byte of the terminator lies in the text.
  obtain ⟨b, behind, last, part⟩ := lineTerminator?_bytes (k := width - 1) found (by omega)
  have inText : text[place + width - 1 - low]? = some b := by
    have same : (source.drop low)[place + width - 1 - low]? = (source.drop place)[width - 1]? := by
      rw [List.getElem?_drop, List.getElem?_drop]
      congr 1
      omega
    rw [atLow, List.getElem?_append_left (by omega)] at same
    rw [same, ← List.head?_drop, last, List.head?_cons]
  obtain ⟨noFeed, noReturn, ascii⟩ := plain b (List.mem_of_getElem? inText)
  rcases part with isFeed | isReturn | wide
  · exact noFeed isFeed
  · exact noReturn isReturn
  · exact absurd wide (UInt8.not_le.mpr ascii)

end Unbroken

/-! Trivia -/

namespace Trivia

theorem lineTerminator?_of_lineWidth {bytes : Bytes} {k : Nat} (inside : k < lineWidth bytes) :
    lineTerminator? (bytes.drop k) = none := by
  induction bytes generalizing k with
  | nil => cases inside
  | cons b rest ih =>
    rw [lineWidth] at inside
    split at inside
    · cases inside
    · rename_i quiet
      cases k with
      | zero => simpa [atLineTerminator] using quiet
      | succ k => exact ih (Nat.lt_of_succ_lt_succ inside)

theorem lineTerminator?_of_blockRest? {bytes : Bytes} {width k : Nat} (closed : blockRest? bytes = some ⟨width, false⟩)
    (inside : k < width) : lineTerminator? (bytes.drop k) = none := by
  induction bytes generalizing width k with
  | nil => cases closed
  | cons b rest ih =>
    by_cases closing : b = 0x2A ∧ rest.head? = some 0x2F
    · obtain ⟨rfl, next⟩ := closing
      obtain ⟨tail, rfl⟩ := List.head?_eq_some_iff.mp next
      rw [blockRest?_pair] at closed
      cases closed
      obtain rfl | rfl : k = 0 ∨ k = 1 := by omega
      · rfl
      · rfl
    · rw [blockRest?_cons closing] at closed
      obtain ⟨⟨inner, breaks⟩, found, same⟩ := Option.map_eq_some_iff.mp closed
      obtain ⟨rfl, quiet⟩ := Gap.mk.inj same
      obtain ⟨here, rfl⟩ := Bool.or_eq_false_iff.mp quiet
      cases k with
      | zero => simpa [atLineTerminator] using here
      | succ k => exact ih found (Nat.lt_of_succ_lt_succ inside)

/-- A wide blank is one character. -/
theorem exists_encode {b : UInt8} {text : Bytes} {newline : Bool}
    (found : wideBlank? (b :: text) = some ⟨text.length + 1, newline⟩) : ∃ c, Utf8.encode c = b :: text := by
  unfold wideBlank? at found
  split at found
  · rename_i c width decoded
    obtain ⟨tail, split, rfl⟩ := Utf8.decode?_eq_some decoded
    have width : (Utf8.encode c).length = text.length + 1 := by grind
    have noTail : tail = [] := by
      have lengths := congrArg List.length split
      rw [List.length_append, List.length_cons, width] at lengths
      exact List.length_eq_zero_iff.mp (by omega)
    rw [noTail, List.append_nil] at split
    exact ⟨c, split.symm⟩
  · cases found

/-- A piece that tells of no line terminator has none that begins in it. -/
theorem IsPiece.noTerminator {text rest : Bytes} (isPiece : IsPiece text rest false) {k : Nat}
    (inside : k < text.length) : lineTerminator? ((text ++ rest).drop k) = none := by
  cases k with
  | zero =>
    have found := isPiece.piece?
    cases ends : atLineTerminator (text ++ rest) with
    | false => simpa [atLineTerminator] using ends
    | true =>
      obtain ⟨width, breaks, -⟩ := piece?_of_atLineTerminator ends
      rw [breaks] at found
      cases found
  | succ k =>
    cases isPiece with
    | blank => cases Nat.lt_of_succ_lt_succ inside
    | @lineComment body _ ends =>
      cases k with
      | zero => rfl
      | succ k =>
        have within : k < body.length := Nat.lt_of_succ_lt_succ (Nat.lt_of_succ_lt_succ inside)
        rw [← ends] at within
        exact @lineTerminator?_of_lineWidth (body ++ rest) k within
    | @blockComment body _ _ closed =>
      cases k with
      | zero => rfl
      | succ k =>
        have within : k < body.length := Nat.lt_of_succ_lt_succ (Nat.lt_of_succ_lt_succ inside)
        exact @lineTerminator?_of_blockRest? (body ++ rest) _ k (closed rest) within
    | @wide b text _ _ wide found =>
      have within : k < text.length := Nat.lt_of_succ_lt_succ inside
      obtain ⟨c, encoded⟩ := exists_encode (by simpa using found [])
      have split : (text ++ rest).drop k = text[k] :: (text ++ rest).drop (k + 1) := by
        rw [List.drop_eq_getElem_cons (by rw [List.length_append]; omega), List.getElem_append_left within]
      obtain ⟨notAscii, small⟩ := Utf8.continues_of_encode encoded text[k] (List.getElem_mem within)
      have other {a : UInt8} (first : a < 0x80 ∨ 0xC0 ≤ a) : text[k] ≠ a := by
        rintro rfl
        rcases first with ascii | large
        · exact UInt8.not_le.mpr ascii notAscii
        · exact UInt8.not_le.mpr small large
      rw [List.cons_append, List.drop_succ_cons, split, lineTerminator?_cons, if_neg (other (by decide)),
        if_neg (other (by decide)), if_neg fun both => other (by decide) both.1]

/-- A piece does not begin inside a line terminator, unless with a line feed. -/
theorem IsPiece.head {text rest : Bytes} (isPiece : IsPiece text rest false) :
    ∃ b more, text = b :: more ∧ ¬ (b = 0x0A ∨ 0x80 ≤ b ∧ b < 0xC0) := by
  cases isPiece with
  | blank isBlank => exact ⟨_, _, rfl, by rcases isBlank with rfl | rfl | rfl | rfl <;> decide⟩
  | lineComment => exact ⟨_, _, rfl, by decide⟩
  | blockComment => exact ⟨_, _, rfl, by decide⟩
  | @wide b text _ _ wide found =>
    obtain ⟨c, encoded⟩ := exists_encode (by simpa using found [])
    have decoded := Utf8.decode?_encode c []
    rw [List.append_nil, encoded] at decoded
    refine ⟨b, text, rfl, ?_⟩
    rintro (rfl | ⟨-, small⟩)
    · exact wide (by decide)
    · simp [Utf8.decode?, wide, small] at decoded

end Trivia

theorem Unbroken.of_piece {source text rest : Bytes} {low : Nat} (atLow : source.drop low = text ++ rest)
    (isPiece : Trivia.IsPiece text rest false) : Unbroken source low (low + text.length) := by
  intro place width found
  refine Decidable.byContradiction fun reaches => ?_
  rcases Nat.lt_or_ge place low with before | behind
  -- The piece would begin inside the terminator.
  · obtain ⟨b, more, begins, part⟩ := lineTerminator?_inner (k := low - place) found (by omega) (by omega)
    obtain ⟨first, others, rfl, noPart⟩ := isPiece.head
    rw [List.drop_drop, Nat.add_sub_cancel' (Nat.le_of_lt before), atLow] at begins
    cases begins
    exact noPart part
  · have positive := StringLiteral.lineTerminator?_pos found
    have nothing := isPiece.noTerminator (k := place - low) (by omega)
    rw [← atLow, List.drop_drop, Nat.add_sub_cancel' behind, found] at nothing
    cases nothing

/-! Lexemes -/

namespace Lexeme

/-- No line begins between neighbours of a row of lexemes, unless the second of them tells of a terminator. -/
def TellsBreaks (source : Bytes) : (low : Nat) → List Lexeme → Prop
  | _, [] => True
  | low, lexeme :: rest =>
    (lexeme.newline = false → Unbroken source low lexeme.span.start) ∧ TellsBreaks source lexeme.span.stop rest

theorem scanFrom_tellsBreaks {source : Bytes} {low offset : Nat} {newline : Bool}
    (told : newline = false → Unbroken source low offset) :
    TellsBreaks source low (scanFrom 0 offset newline (source.drop offset)) := by
  generalize left : source.length - offset = n
  induction n using Nat.strongRecOn generalizing low offset newline with
  | _ n ih =>
    cases atOffset : source.drop offset with
    | nil => exact ⟨told, trivial⟩
    | cons b tail =>
      have length := congrArg List.length atOffset
      rw [List.length_drop, List.length_cons] at length
      cases found : Trivia.piece? (b :: tail) with
      | some piece =>
        obtain ⟨text, rest, same, width, isPiece⟩ := Trivia.piece?_eq_some found
        have positive := List.length_pos_iff.mpr isPiece.ne_nil
        have atRest : source.drop (offset + text.length) = rest := by
          rw [← List.drop_drop, atOffset, same, List.drop_left]
        rw [same] at found atOffset
        rw [same, scanFrom_of_piece found width isPiece.ne_nil, ← atRest]
        refine ih _ ?_ (fun quiet => ?_) rfl
        · omega
        · obtain ⟨before, inside⟩ := Bool.or_eq_false_iff.mp quiet
          rw [inside] at isPiece
          exact (told before).trans (.of_piece atOffset isPiece)
      | none =>
        have positive := Token.read_width_pos b tail
        have fits := Token.read_width_le (List.cons_ne_nil b tail)
        rw [List.length_cons] at fits
        have behind : (source.drop (offset + (Token.read (b :: tail)).2)) =
            tail.drop ((Token.read (b :: tail)).2 - 1) := by
          rw [← List.drop_drop, atOffset, ← Nat.sub_add_cancel positive, List.drop_succ_cons]
          rfl
        rw [scanFrom_of_read found, scanFrom_pending _ _ (by omega), ← behind,
          show offset + 1 + ((Token.read (b :: tail)).2 - 1) = offset + (Token.read (b :: tail)).2 by omega]
        exact ⟨told, ih _ (by omega) (fun _ => .refl source _) rfl⟩

theorem TellsBreaks.between {source : Bytes} {low : Nat} {lexemes : List Lexeme} (tells : TellsBreaks source low lexemes)
    {before lexeme : Lexeme} (neighbours : [before, lexeme] <:+: lexemes) (quiet : lexeme.newline = false) :
    Unbroken source before.span.stop lexeme.span.start := by
  induction lexemes generalizing low with
  | nil => cases List.infix_nil.mp neighbours
  | cons first rest ih =>
    rcases List.infix_cons_iff.mp neighbours with ⟨more, same⟩ | later
    · cases same
      exact tells.2.1 quiet
    · exact ih tells.2 later

/-- No line begins in a token that is spelled plainly. -/
theorem At.unbroken {source : Bytes} {lexeme : Lexeme} (stands : lexeme.At source)
    (plain : ∀ b ∈ lexeme.span.text source, b ≠ 0x0A ∧ b ≠ 0x0D ∧ b < 0x80) :
    Unbroken source lexeme.span.start lexeme.span.stop := by
  have start := stands.start_lt
  have inside := stands.stop_le
  have width : lexeme.span.start + (lexeme.span.text source).length = lexeme.span.stop := by
    rw [Span.text, List.length_take, List.length_drop]
    omega
  rw [← width]
  exact .of_plain (List.take_append_drop _ _).symm plain

/-- The lexemes come one directly behind the other, without a line terminator between them. -/
structure Joined (source : Bytes) (before lexeme : Lexeme) : Prop where
  neighbours : [before, lexeme] <:+: scan source
  quiet : lexeme.newline = false

namespace Joined

variable {source : Bytes} {before lexeme : Lexeme}

theorem of_suffix {rest : List Lexeme} (suffix : before :: lexeme :: rest <:+ scan source)
    (quiet : lexeme.newline = false) : Joined source before lexeme :=
  ⟨(List.prefix_append [before, lexeme] rest).isInfix.trans suffix.isInfix, quiet⟩

theorem stands (joined : Joined source before lexeme) : before.At source :=
  ((scan_inOrder source).between joined.neighbours).1

theorem stop_le (joined : Joined source before lexeme) : before.span.stop ≤ lexeme.span.start :=
  ((scan_inOrder source).between joined.neighbours).2

theorem unbroken (joined : Joined source before lexeme) : Unbroken source before.span.stop lexeme.span.start :=
  (scanFrom_tellsBreaks fun _ => .refl source 0).between joined.neighbours joined.quiet

end Joined

/-- The lexeme stands on one line with the word before it, which begins at `start`. -/
def BehindWord (source : Bytes) (word : Word) (start : Nat) (lexeme : Lexeme) : Prop :=
  ∃ before, Joined source before lexeme ∧ before.token = .keyword word ∧ before.span.start = start

end Lexeme

/-! Lines -/

namespace Lines

theorem exists_lineTerminator {pending offset start : Nat} {bytes : Bytes}
    (member : start ∈ startsFrom pending offset bytes) :
    ∃ k width, lineTerminator? (bytes.drop k) = some width ∧ start = offset + k + width := by
  induction bytes generalizing pending offset with
  | nil => cases pending <;> cases member
  | cons b rest ih =>
    have later {pending : Nat} (member : start ∈ startsFrom pending (offset + 1) rest) :
        ∃ k width, lineTerminator? ((b :: rest).drop k) = some width ∧ start = offset + k + width := by
      obtain ⟨k, width, found, same⟩ := ih member
      exact ⟨k + 1, width, found, by omega⟩
    cases pending with
    | succ pending => exact later member
    | zero =>
      rw [startsFrom] at member
      split at member
      · rename_i width found
        rcases List.mem_cons.mp member with rfl | member
        · exact ⟨0, width, found, rfl⟩
        · exact later member
      · exact later member

/-- Places with no beginning of a line between them are on the same line. -/
theorem line_eq {source : Bytes} {low high : Nat} (unbroken : Unbroken source low high) (before : low ≤ high)
    (file : Bytes) : ((ofSource file source).position high).line = ((ofSource file source).position low).line := by
  have same : ∀ start ∈ startsFrom 0 0 source,
      decide (start ≤ min high source.length) = decide (start ≤ min low source.length) := by
    intro start member
    obtain ⟨place, width, found, rfl⟩ := exists_lineTerminator member
    refine decide_eq_decide.mpr ?_
    rcases unbroken place width found with early | late <;> omega
  have passed : (startsFrom 0 0 source).takeWhile (· ≤ min high source.length) =
      (startsFrom 0 0 source).takeWhile (· ≤ min low source.length) := by
    generalize startsFrom 0 0 source = starts at same
    induction starts with
    | nil => rfl
    | cons start starts ih =>
      obtain ⟨here, more⟩ := List.forall_mem_cons.mp same
      rw [List.takeWhile_cons, List.takeWhile_cons, here, ih more]
  exact congrArg (·.length + 1) passed

end Lines

end EcmaFold
