import EcmaFold.Proofs.Lexer.Lines
import EcmaFold.Proofs.Lexer.TapeRequests
import EcmaFold.Proofs.Positions

/-!
The probe for a line terminator in front of the next token agrees with the line numbers, wherever it is made: within a
line terminator or a character, in front of a comment that is not closed, and where the trivia were passed over before.
-/

namespace EcmaFold

namespace Trivia

theorem exists_terminator_of_blockRest? {bytes : Bytes} {width : Nat} (closed : blockRest? bytes = some ⟨width, true⟩) :
    ∃ k taken, lineTerminator? (bytes.drop k) = some taken ∧ k + taken ≤ width := by
  induction bytes generalizing width with
  | nil => cases closed
  | cons b rest ih =>
    by_cases closing : b = 0x2A ∧ rest.head? = some 0x2F
    · obtain ⟨rfl, next⟩ := closing
      obtain ⟨tail, rfl⟩ := List.head?_eq_some_iff.mp next
      rw [blockRest?_pair] at closed
      cases closed
    rw [blockRest?_cons closing] at closed
    obtain ⟨⟨inner, breaks⟩, found, same⟩ := Option.map_eq_some_iff.mp closed
    obtain ⟨rfl, either⟩ := Gap.mk.inj same
    obtain ⟨body, behind, -, taken, atLeast, -⟩ := blockRest?_eq_some found
    rcases (Bool.or_eq_true_iff.mp either) with here | rfl
    · -- The closing of the comment takes the room that the terminator needs behind its first byte.
      obtain ⟨width, ends⟩ := Option.isSome_iff_exists.mp here
      refine ⟨0, width, ends, ?_⟩
      rw [lineTerminator?_cons] at ends
      grind
    · obtain ⟨k, width, ends, within⟩ := ih found
      refine ⟨k + 1, width, ends, ?_⟩
      rw [Nat.add_right_comm]
      exact Nat.succ_le_succ within

/-- In a piece that tells of a line terminator there is one, unless it is a carriage return in front of a line feed. -/
theorem IsPiece.exists_terminator {text rest : Bytes} (isPiece : IsPiece text rest true) :
    (∃ k width, lineTerminator? ((text ++ rest).drop k) = some width ∧ k + width ≤ text.length) ∨
      lineTerminator? (text ++ rest) = some 2 ∧ text.length = 1 ∧ rest.head? = some 0x0A := by
  generalize breaks : true = newline at isPiece
  cases isPiece with
  | blank | lineComment => cases breaks
  | @line b _ isLine =>
    rcases isLine with rfl | rfl
    · exact .inl ⟨0, 1, rfl, Nat.le_refl _⟩
    · by_cases feed : rest.head? = some 0x0A
      · exact .inr ⟨by rw [List.singleton_append, lineTerminator?_cons]; simp [feed], rfl, feed⟩
      · exact .inl ⟨0, 1, by rw [List.drop_zero, List.singleton_append, lineTerminator?_cons]; simp [feed], Nat.le_refl _⟩
  | @blockComment body _ _ closed =>
    obtain ⟨k, width, ends, within⟩ := exists_terminator_of_blockRest? (breaks ▸ closed rest)
    exact .inl ⟨k + 2, width, ends, by simp only [List.length_cons]; omega⟩
  | @wide b text _ _ wide found =>
    have alone := found []
    rw [List.append_nil, ← breaks] at alone
    obtain ⟨c, encoded⟩ := exists_encode alone
    have decoded := Utf8.decode?_encode c []
    rw [List.append_nil, encoded] at decoded
    rw [wideBlank?, decoded] at alone
    simp only at alone
    split at alone
    · rename_i isLine
      have table : Utf8.encode '\u2028' = utf8 "\u2028" ∧ Utf8.encode '\u2029' = utf8 "\u2029" := by decide
      rcases isLine with rfl | rfl
      · rw [← encoded, table.1]
        exact .inl ⟨0, 3, rfl, Nat.le_refl _⟩
      · rw [← encoded, table.2]
        exact .inl ⟨0, 3, rfl, Nat.le_refl _⟩
    · split at alone <;> cases alone

/-- Trivia that tell of a line terminator hold one up to its end. -/
theorem exists_terminator_of_gap (bytes : Bytes) (breaks : (gap bytes).newline = true) :
    ∃ k width, lineTerminator? (bytes.drop k) = some width ∧ k + width ≤ (gap bytes).width := by
  induction bytes using gap_induction with
  | stops bytes noTrivia =>
    rw [gap_of_none noTrivia] at breaks
    cases breaks
  | piece text rest newline isPiece ih =>
    rw [gap_of_piece isPiece] at breaks ⊢
    cases newline with
    | true =>
      rcases isPiece.exists_terminator with ⟨k, width, ends, within⟩ | ⟨pair, one, feed⟩
      · exact ⟨k, width, ends, by simp only; omega⟩
      · obtain ⟨tail, rfl⟩ := List.head?_eq_some_iff.mp feed
        have more := gap_of_piece (@IsPiece.line 0x0A tail (.inl rfl))
        refine ⟨0, 2, pair, ?_⟩
        rw [List.singleton_append] at more
        simp only [more, one, List.length_singleton]
        omega
    | false =>
      obtain ⟨k, width, ends, within⟩ := ih breaks
      exact ⟨text.length + k, width, by rwa [List.drop_length_add_append], by simp only; omega⟩

/-- In trivia that tell of no line terminator no line ends. -/
theorem unbroken_gap {source : Bytes} {low : Nat} (quiet : (gap (source.drop low)).newline = false) :
    Unbroken source low (low + (gap (source.drop low)).width) := by
  generalize left : source.drop low = bytes at quiet ⊢
  induction bytes using gap_induction generalizing low with
  | stops bytes noTrivia =>
    rw [gap_of_none noTrivia]
    exact .refl source low
  | piece text rest newline isPiece ih =>
    rw [gap_of_piece isPiece] at quiet ⊢
    obtain ⟨rfl, quiet⟩ := Bool.or_eq_false_iff.mp quiet
    have atRest : source.drop (low + text.length) = rest := by rw [← List.drop_drop, left, List.drop_left]
    have behind := ih atRest quiet
    rw [Nat.add_assoc] at behind
    exact (Unbroken.of_piece left isPiece).trans behind

end Trivia

namespace Lines

/-- Where a terminator ends, the next line begins. -/
theorem line_lt {file source : Bytes} {low high start : Nat} (member : start ∈ startsFrom 0 0 source)
    (behind : low < start) (before : start ≤ high) (inside : high ≤ source.length) :
    ((ofSource file source).position low).line < ((ofSource file source).position high).line := by
  have kept := filter_sublist (show low ≤ high by omega) (startsFrom 0 0 source)
  rw [position_eq file source inside, position_eq file source (by omega : low ≤ source.length)]
  refine Nat.add_lt_add_left (Nat.lt_of_le_of_ne kept.length_le fun same => ?_) 1
  have gained : start ∈ (startsFrom 0 0 source).filter (· ≤ high) := List.mem_filter.mpr ⟨member, by simpa using before⟩
  rw [← kept.eq_of_length same] at gained
  have := (List.mem_filter.mp gained).2
  simp at this
  omega

end Lines

/-- A line ends in the trivia at a place exactly if the line behind them is a later one. -/
theorem Scanner.newlineAhead_iff (file : Bytes) {s : Scanner} (inside : s.offset ≤ s.source.length) :
    s.newlineAhead = true ↔ ((Lines.ofSource file s.source).position s.offset).line <
      ((Lines.ofSource file s.source).position s.skip.offset).line := by
  constructor
  · intro breaks
    obtain ⟨k, width, ends, within⟩ := Trivia.exists_terminator_of_gap s.rest breaks
    have positive := StringLiteral.lineTerminator?_pos ends
    rw [rest, List.drop_drop] at ends
    have member := @Lines.mem_startsFrom 0 _ _ _ ends
    refine Lines.line_lt member (by omega) ?_ (skip_offset_le inside)
    simp only [skip, advance, moveTo]
    omega
  · intro later
    refine Bool.eq_true_of_not_eq_false fun quiet => ?_
    have same := Lines.line_eq (Trivia.unbroken_gap quiet) (Nat.le_add_right _ _) file
    exact absurd same (Nat.ne_of_gt later)

/-- Whatever was asked for before, and wherever the head is then, the probe tells whether passing over the trivia leads to
a later line, and leaves the head where it is. -/
theorem newlineAhead_faithful {find? : Bytes → Option Nat} (finds : Pattern.FindsMatches Number.pattern find?)
    (file source : Bytes) (requests : List Request)
    (inside : ∀ request ∈ requests, request.isInside source.length = true) :
    ∃ t, Act.runAll find? requests (.ofSource source) = some ((), t) ∧ t.source = source ∧ t.head ≤ source.length ∧
      ∀ offset ≤ source.length,
        let s : Scanner := ⟨source, offset⟩
        (∃ probed, Act.newlineAhead { t with head := offset } = some (s.newlineAhead, probed) ∧ probed.scanner = s) ∧
        (∃ behind, Act.skip { t with head := offset } = some (s.newlineAhead, behind) ∧ behind.scanner = s.skip) ∧
        (s.newlineAhead = true ↔ ((Lines.ofSource file source).position offset).line <
          ((Lines.ofSource file source).position s.skip.offset).line) := by
  obtain ⟨t, ran, sound, rfl, -⟩ := Act.runAll_apply finds (Tape.ofSource_sound source) inside
  refine ⟨t, ran, rfl, sound.fits, fun offset fits => ⟨?_, ?_, Scanner.newlineAhead_iff file fits⟩⟩
  · exact ⟨_, Act.newlineAhead_apply (sound.moveTo fits), rfl⟩
  · exact ⟨_, Act.skip_apply (sound.moveTo fits), rfl⟩

/-- Between a carriage return and its line feed the line has not ended yet, also if the trivia there were passed over
before. -/
theorem newlineAhead_faithful_pair : ∃ t,
    Act.runAll Number.find? [.reset 1, .skip] (.ofSource (utf8 "\r\na")) = some ((), t) ∧
    (∃ probed, Act.newlineAhead { t with head := 1 } = some (true, probed) ∧ probed.head = 1) ∧
    ((Lines.ofSource [] (utf8 "\r\na")).position 1).line = 1 ∧
    1 < ((Lines.ofSource [] (utf8 "\r\na")).position (Scanner.skip ⟨utf8 "\r\na", 1⟩).offset).line := by
  obtain ⟨t, ran, -, -, probes⟩ := newlineAhead_faithful Number.find?_findsMatches [] (utf8 "\r\na") [.reset 1, .skip]
    (by decide)
  obtain ⟨⟨probed, answered, stays⟩, -, later⟩ := probes 1 (by decide)
  have breaks : Scanner.newlineAhead ⟨utf8 "\r\na", 1⟩ = true := by decide
  have first : ((Lines.ofSource [] (utf8 "\r\na")).position 1).line = 1 := by decide
  refine ⟨t, ran, ⟨probed, breaks ▸ answered, congrArg Scanner.offset stays⟩, first, ?_⟩
  exact first ▸ later.mp breaks

end EcmaFold
