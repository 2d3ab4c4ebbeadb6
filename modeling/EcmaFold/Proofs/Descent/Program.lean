import EcmaFold.Descent.Program
import EcmaFold.Proofs.Descent.Statement
import EcmaFold.Proofs.TokenSequence

/-!
A source is read by descent over its bytes as it is read by the grammar over its lexemes: the same tree, the same place
where reading stops and the same report of what is missed.
-/

namespace EcmaFold

namespace Cursor

/-- All tokens are taken where no byte is left. -/
theorem Scanned.atEnd_eq {source : Bytes} {c : Cursor} (scanned : c.Scanned source) :
    c.atEnd = decide (source.length ≤ c.offset) := by
  rcases scanned.next with ⟨nothing, next⟩ | ⟨left, rest, steps, -⟩
  · rw [decide_eq_true (List.drop_eq_nil_iff.mp nothing)]
    obtain ⟨after, newline, span, rest, atRest, -⟩ := exists_steps next
    rw [atEnd, atRest]
  · rw [decide_eq_false (mt List.drop_eq_nil_iff.mpr left)]
    have going := (Token.read_clean (source.drop c.offset)).2
    obtain ⟨newline, span, behind, atRest, -⟩ := steps
    rw [atEnd, atRest]
    cases isToken : (Token.read (source.drop c.offset)).1 with
    | ending => exact absurd isToken going
    | _ => rfl

end Cursor

/-- A source element takes a lexeme. -/
theorem Grammar.element_shortens {source : Bytes} {c after : Cursor} {element : Node .element} (of : c.Of source)
    (run : (ofSource source).element.Gives c element after) : after.rest.length < c.rest.length := by
  obtain ⟨n, length, answering⟩ := exists_answering (ofDepth 0) (Nat.le_refl (Lexeme.scan source).length)
  obtain ⟨-, -, taken, fewer, eats⟩ := (answering.element c of (length ▸ of.length_le)).2.leads _ after run
  have positive := eats.2
  omega

namespace Descent

variable {source : Bytes} {n : Nat} {x : Place} {s : State} {c : Cursor} {allowIn : Bool}

theorem State.Meets.atEnd (meets : s.Meets source allowIn x c) : s.scanner.atEnd = c.atEnd := by
  rw [Scanner.atEnd, meets.skip, meets.sameSource, meets.scanned.atEnd_eq]

theorem State.ofSource_meets (source : Bytes) :
    (State.ofSource source).Meets source true .close (.ofSource source) where
  scanned := Cursor.scanned_ofSource source
  sameSource := rfl
  sameIn := rfl
  near := .inl rfl

theorem productions_following (source : Bytes) : Productions.Following source (Lexeme.scan source).length
    (Lexeme.scan source).length (productions source) :=
  (Productions.ofDepth_following source (source.length + 1)).mono (Lexeme.length_scan_le source)
    (Lexeme.length_scan_le source)

/-- From where they meet, both read the same elements and stop at the same place. -/
theorem elementsFrom_eq {g : Productions} (following : g.Following source n n) (limit : Nat) (bound : List Lexeme)
    (s : State) (c : Cursor) (meets : s.Meets source true x c) (short : c.rest.length ≤ n)
    (enough : c.rest.length ≤ limit) (enough' : c.rest.length ≤ bound.length) :
    (elementsFrom g limit s).1 = ((Reading.elementsFrom (Grammar.ofSource source) bound c).elements,
      (Reading.elementsFrom (Grammar.ofSource source) bound c).isComplete) ∧
    (elementsFrom g limit s).2.scanner.offset = (Reading.elementsFrom (Grammar.ofSource source) bound c).cursor.offset ∧
    (elementsFrom g limit s).2.failure =
      Failure.merge s.failure (Reading.elementsFrom (Grammar.ofSource source) bound c).failure := by
  have positive := List.length_pos_iff.mpr meets.scanned.of.ne_nil
  induction limit generalizing bound s c x with
  | zero => exact absurd positive (Nat.not_lt.mpr enough)
  | succ limit ih =>
    obtain _ | ⟨head, bound⟩ := bound
    · exact absurd positive (Nat.not_lt.mpr enough')
    have here : s.scanner.skip.offset = c.offset := congrArg Scanner.offset meets.skip
    rw [elementsFrom]
    cases ended : c.atEnd with
    | true =>
      rw [Reading.elementsFrom_atEnd ended, if_pos (meets.atEnd.trans ended)]
      exact ⟨by rw [Reading.isComplete, ended], here, (Failure.merge_none _).symm⟩
    | false =>
      rw [if_neg (by rw [meets.atEnd, ended]; exact Bool.false_ne_true)]
      have comes := following.element _ c meets.skipped short
      rcases Parser.fails_or_gives (Grammar.ofSource source).element c with stuck | ⟨element, after, run⟩
      · rw [Reading.elementsFrom_of_fails ended stuck, comes.of_fails stuck]
        exact ⟨by rw [Reading.isComplete, ended], here, comes.failure⟩
      · obtain ⟨behind, fewer⟩ := comes.meets element after run
        have shorter := Grammar.element_shortens meets.scanned.of run
        rw [List.length_cons] at enough'
        obtain ⟨more, stop, failure⟩ := ih bound _ after behind (by omega) (by omega) (by omega)
          (List.length_pos_iff.mpr behind.scanned.of.ne_nil)
        rw [Reading.elementsFrom_of_gives ended run, comes.of_gives run]
        refine ⟨?_, stop, ?_⟩
        · exact congrArg (fun found => (element :: found.1, found.2)) more
        · exact failure.trans (by rw [comes.failure, Failure.merge_assoc])

/-- Both read the same part of a source. -/
theorem readPart_eq (source : Bytes) : readPart source = Program.readPart source := by
  have meets := State.ofSource_meets source
  have start : (State.ofSource source).scanner.skip.offset = (Cursor.ofSource source).offset :=
    congrArg Scanner.offset meets.skip
  obtain ⟨found, stop, failure⟩ := elementsFrom_eq (productions_following source) (source.length + 1)
    (Lexeme.scan source) _ _ meets (Nat.le_refl _) (Lexeme.length_scan_le source) (Nat.le_refl _)
  rcases read : elementsFrom (productions source) (source.length + 1) (State.ofSource source) with
    ⟨⟨elements, complete⟩, after⟩
  rw [read] at found stop failure
  obtain ⟨rfl, rfl⟩ := Prod.mk.inj found
  replace stop : after.scanner.offset = _ := stop
  replace failure : after.failure = _ := failure.trans (Failure.none_merge _)
  simp only [readPart, read, start, stop, failure]
  rfl

theorem parse_eq (file source : Bytes) : parse file source = Program.parse file source := by
  rw [parse, Program.parse, readPart_eq]

theorem parseLongest_eq (source : Bytes) : parseLongest source = Program.parseLongest source := by
  rw [parseLongest, Program.parseLongest, readPart_eq]

theorem State.Meets.endOfInput (meets : s.Meets source allowIn x c) : Descent.endOfInput s =
    if c.atEnd then (some (), { s with scanner := s.scanner.skip })
    else (none, ⟨s.scanner.skip, s.allowIn, Failure.merge s.failure (some ⟨c.offset, [.endOfInput]⟩)⟩) := by
  have asked : Descent.atEnd s = (some c.atEnd, { s with scanner := s.scanner.skip }) := by
    rw [← meets.atEnd, Descent.atEnd]
  rw [Descent.endOfInput, bind_of_some asked]
  cases c.atEnd with
  | true => rfl
  | false =>
    change (none, State.mk _ _ (Failure.merge _ (some ⟨s.scanner.skip.skip.offset, _⟩))) = _
    rw [Scanner.skip_skip, meets.skip]
    rfl

theorem parseExpression_eq (source : Bytes) : parseExpression source = Program.parseExpression source := by
  have meets := State.ofSource_meets source
  have short : (Cursor.ofSource source).rest.length ≤ (Lexeme.scan source).length := Nat.le_refl _
  have comes : Comes source true .close (State.ofSource source) (Cursor.ofSource source) _ _ :=
    (productions_following source).sequence (x := .close) (State.ofSource source) (.ofSource source) meets short
  have noEarlier : (State.ofSource source).failure = none := rfl
  obtain ⟨value, -, -, failure, behind⟩ := comes
  rw [noEarlier, Failure.none_merge] at failure
  unfold parseExpression Program.parseExpression
  generalize (productions source).sequence (State.ofSource source) = run at value failure behind ⊢
  have asked : (Grammar.ofDepth (Lexeme.scan source).length).sequence true ⟨0, Lexeme.scan source⟩ =
    (Grammar.ofSource source).sequence true (.ofSource source) := rfl
  simp only [asked]
  generalize (Grammar.ofSource source).sequence true (.ofSource source) = reply at value failure behind ⊢
  obtain ⟨found, left⟩ := run
  obtain ⟨_ | ⟨expr, after⟩, missed⟩ := reply
  · obtain rfl : found = none := value
    obtain rfl : left.failure = missed := failure
    rfl
  · obtain rfl : found = some expr := value
    obtain rfl : left.failure = missed := failure
    have ended := (behind expr after rfl).1.endOfInput
    have stop := congrArg Scanner.offset (behind expr after rfl).1.skip
    simp only [ended]
    cases after.atEnd with
    | true => rfl
    | false => simp only [Bool.false_eq_true, if_false, stop]

end Descent

end EcmaFold
