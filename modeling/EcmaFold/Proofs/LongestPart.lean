import EcmaFold.Proofs.Composition
import EcmaFold.Proofs.LayoutIndependence
import EcmaFold.Proofs.Lexer.LineStarts
import EcmaFold.Proofs.Parser.Leading
import EcmaFold.Proofs.Parser.Placed

/-!
The longest part of a source that is a program. Cut off where reading stops, the part in front is a program by itself,
with the same tree at the same places, and nothing can be read from the part behind.
-/

namespace EcmaFold

/-! Lines -/

theorem lineTerminator?_append (b : UInt8) (text : Bytes) {rest : Bytes}
    (noPair : rest.head? = some 0x0A → (b :: text).getLast? ≠ some 0x0D) :
    lineTerminator? (b :: (text ++ rest)) = lineTerminator? (b :: text) ∨
      lineTerminator? (b :: (text ++ rest)) = some 3 ∧ lineTerminator? (b :: text) = none ∧
        (text = [] ∨ text = [0x80]) := by
  rw [lineTerminator?_cons, lineTerminator?_cons]
  obtain _ | ⟨second, _ | ⟨third, more⟩⟩ := text
  · grind
  · grind
  · exact .inl (by simp)

namespace Lines

/-- Which lines begin up to a place in the text does not depend on what stands behind the text, unless a line feed
there belongs to a carriage return. -/
theorem takeWhile_startsFrom {place : Nat} {rest : Bytes} :
    ∀ (text : Bytes) (pending offset : Nat), (rest.head? = some 0x0A → text.getLast? ≠ some 0x0D) →
      place ≤ offset + text.length → (startsFrom pending offset (text ++ rest)).takeWhile (· ≤ place) =
        (startsFrom pending offset text).takeWhile (· ≤ place) := by
  intro text
  induction text with
  | nil =>
    intro pending offset _ inside
    have nothing : (startsFrom pending offset rest).takeWhile (· ≤ place) = [] := by
      cases starts : startsFrom pending offset rest with
      | nil => rfl
      | cons start more =>
        have behind := @lt_of_mem_startsFrom pending offset start rest (by rw [starts]; exact List.mem_cons_self)
        exact List.takeWhile_cons_of_neg (by simp at inside; simp; omega)
    rw [List.nil_append, nothing]
    cases pending <;> rfl
  | cons b text ih =>
    intro pending offset noPair inside
    rw [List.length_cons] at inside
    have noPairTail : rest.head? = some 0x0A → text.getLast? ≠ some 0x0D := by
      intro feed carriage
      refine noPair feed ?_
      rw [List.getLast?_cons, carriage]
      rfl
    cases pending with
    | succ pending => exact ih pending (offset + 1) noPairTail (by omega)
    | zero =>
      rw [List.cons_append, startsFrom, startsFrom]
      rcases lineTerminator?_append b text noPair with same | ⟨wide, none, short⟩
      · rw [same]
        split
        · rename_i width _
          rw [List.takeWhile_cons, List.takeWhile_cons, ih (width - 1) (offset + 1) noPairTail (by omega)]
        · exact ih 0 (offset + 1) noPairTail (by omega)
      · rw [wide, none]
        have narrow : place < offset + 3 := by rcases short with rfl | rfl <;> simp at inside <;> omega
        rw [List.takeWhile_cons_of_neg (by simp; omega)]
        rcases short with rfl | rfl <;> rfl

/-- A place in a text is the same place in a source that goes on behind the text. -/
theorem position_append (file text : Bytes) {rest : Bytes} {place : Nat}
    (noPair : rest.head? = some 0x0A → text.getLast? ≠ some 0x0D) (inside : place ≤ text.length) :
    (ofSource file text).position place = (ofSource file (text ++ rest)).position place := by
  have longer : place ≤ (text ++ rest).length := by rw [List.length_append]; omega
  have starts := takeWhile_startsFrom text 0 0 noPair (by rwa [Nat.zero_add] : place ≤ 0 + text.length)
  simp only [position, ofSource, Nat.min_eq_left inside, Nat.min_eq_left longer, starts]

end Lines

namespace Reading

open EcmaFold.Parser EcmaFold.Tree

/-- The elements that are read stand where they were read. -/
theorem elementsFrom_stands {g : Grammar} (places : g.Places) : ∀ (bound : List Lexeme) (c : Cursor),
    (ofList (elementsFrom g bound c).elements).Stands c (elementsFrom g bound c).cursor := by
  intro bound
  induction bound with
  | nil => exact fun c => rfl
  | cons head bound ih =>
    intro c
    cases ended : c.atEnd with
    | true =>
      rw [elementsFrom_atEnd ended]
      rfl
    | false =>
      rcases fails_or_gives g.element c with stuck | ⟨element, after, run⟩
      · have stopped := @elementsFrom_fails g (head :: bound) c stuck
        rw [stopped.1, stopped.2]
        rfl
      · have step := @elementsFrom_gives g bound head c after element ended run
        rw [step.1, step.2]
        simp [Stands, ofList, route, places.element c element after run, ih after]

/-- Reading goes on until nothing is left or no element can be read. -/
theorem elementsFrom_stops {n : Nat} {g : Grammar} (sound : g.Sound n n) : ∀ (bound : List Lexeme) (c : Cursor),
    c.rest.length ≤ bound.length → c.rest.length ≤ n → c.Clean →
      (elementsFrom g bound c).cursor.atEnd = false → g.element.Fails (elementsFrom g bound c).cursor := by
  intro bound
  induction bound with
  | nil =>
    intro c fits _ _ going
    obtain ⟨stop, _ | ⟨_, _⟩⟩ := c
    · cases going
    · cases fits
  | cons head bound ih =>
    intro c fits short clean going
    cases ended : c.atEnd with
    | true =>
      rw [elementsFrom_atEnd ended, ended] at going
      cases going
    | false =>
      rcases fails_or_gives g.element c with stuck | ⟨element, after, run⟩
      · rw [(@elementsFrom_fails g (head :: bound) c stuck).2]
        exact stuck
      · obtain ⟨slots, covers, rfl, proper⟩ := sound.element c short clean element after run
        obtain ⟨_, _, more, marks, -, shorter, -⟩ := covers.starts proper Kind.noConfusion
        have fewer : after.rest.length < c.rest.length := by
          rw [← c.marks_length, ← after.marks_length, marks, List.length_cons]
          omega
        rw [(@elementsFrom_gives g bound head c after element ended run).2] at going ⊢
        rw [List.length_cons] at fits
        exact ih after (by omega) (by omega) (clean.of_covers covers) going

end Reading

namespace Lexeme

/-- The lexemes of a text lie inside it. -/
theorem Scans.inside {offset : Nat} {newline last : Bool} {text rest : Bytes} {lexemes : List Lexeme}
    (scans : Scans offset newline text rest lexemes last) : ∀ lexeme ∈ lexemes,
      lexeme.span.start ≤ offset + text.length ∧ lexeme.span.stop ≤ offset + text.length := by
  induction scans with
  | done => exact fun lexeme member => (List.not_mem_nil member).elim
  | piece _ tail ih =>
    intro lexeme member
    have bounds := ih lexeme member
    rw [List.length_append]
    omega
  | token spells tail ih =>
    refine List.forall_mem_cons.mpr ⟨?_, fun lexeme member => ?_⟩
    · simp only [List.length_append]
      omega
    · have bounds := ih lexeme member
      rw [List.length_append]
      omega

/-- A text that is cut into lexemes is a source with these lexemes. -/
theorem Scans.scan {text rest : Bytes} {lexemes : List Lexeme} {last : Bool}
    (scans : Scans 0 false text rest lexemes last) :
    Lexeme.scan text = lexemes ++ [⟨.ending, last, ⟨text.length, text.length⟩⟩] := by
  have all := scans.cut.scanFrom
  rwa [List.append_nil, Nat.zero_add] at all

end Lexeme

namespace Program

open EcmaFold.Parser EcmaFold.Tree

/-- The reading of a source. -/
abbrev reading (source : Bytes) : Reading := Reading.ofLexemes (Lexeme.scan source)

/-- What is read from a source stands where its tokens are. -/
theorem readPart_stands (source : Bytes) :
    (readPart source).tree.Stands ⟨0, Lexeme.scan source⟩ (reading source).cursor := by
  have stands := Reading.elementsFrom_stands (Grammar.ofDepth_places (Lexeme.scan source).length)
    (Lexeme.scan source) ⟨0, Lexeme.scan source⟩
  simp [readPart, reading, Reading.ofLexemes, Stands, route, Route.follow, stands]

/-- Reading stops at lexemes of the source. -/
theorem cursor_suffix (source : Bytes) : (reading source).cursor.rest <:+ Lexeme.scan source := by
  have suffix := Route.follow_rest (readPart source).tree.route ⟨0, Lexeme.scan source⟩
  rwa [readPart_stands source] at suffix

/-- Where reading a source stops: in front a text whose lexemes the elements cover, and behind it what cannot be
read. -/
structure Cut (source text rest : Bytes) (front : List Lexeme) (last : Bool) : Prop where
  whole : source = text ++ rest
  scans : Lexeme.Scans 0 false text rest front last
  behind : (reading source).cursor.rest = Lexeme.scanFrom 0 text.length last rest
  nonempty : rest ≠ []
  noTrivia : Trivia.piece? rest = none
  proper : (ofList (reading source).elements).All Proper
  covers : Covers (ofList (reading source).elements).yield (front.map Lexeme.mark) []

/-- A source that is not read whole is cut in two. -/
theorem exists_cut {source : Bytes} (incomplete : (reading source).isComplete = false) :
    ∃ text rest front last, Cut source text rest front last := by
  obtain ⟨proper, taken, marks, covers, ordinary⟩ := Reading.ofLexemes_reads source
  obtain ⟨front, split⟩ := cursor_suffix source
  obtain rfl : taken = front.map Lexeme.mark := by
    have parts := congrArg (List.map Lexeme.mark) split
    rw [List.map_append] at parts
    exact (List.append_cancel_right (parts.trans marks)).symm
  have going : (reading source).cursor.rest ≠ [] := by
    intro nothing
    rw [Reading.isComplete, Cursor.atEnd, nothing] at incomplete
    cases incomplete
  obtain ⟨text, rest, last, whole, scans, behind, noTrivia⟩ :=
    covers.exists_scans (settled_yield proper) ordinary split.symm going
  refine ⟨text, rest, front, last, whole, scans, behind.symm, ?_, noTrivia, proper, covers⟩
  rintro rfl
  rw [Reading.isComplete, Cursor.atEnd, ← behind] at incomplete
  cases incomplete

namespace Cut

variable {source text rest : Bytes} {front : List Lexeme} {last : Bool}

/-- Reading stops at the first token behind the text. -/
theorem next (cut : Cut source text rest front last) :
    ∃ more, (reading source).cursor.rest =
      ⟨(Token.read rest).1, last, ⟨text.length, text.length + (Token.read rest).2⟩⟩ :: more := by
  obtain ⟨b, tail, rfl⟩ := List.exists_cons_of_ne_nil cut.nonempty
  exact ⟨_, cut.behind.trans (Lexeme.scanFrom_of_read cut.noTrivia)⟩

theorem stop (cut : Cut source text rest front last) : (readPart source).stop = text.length := by
  obtain ⟨more, next⟩ := cut.next
  change (reading source).cursor.offset = _
  rw [Cursor.offset, next]

theorem drop_stop (cut : Cut source text rest front last) : source.drop (readPart source).stop = rest := by
  rw [cut.stop, cut.whole, List.drop_left]

/-- The text in front is read whole. -/
theorem complete (cut : Cut source text rest front last) :
    List.Forall₂ Same (reading source).elements (reading text).elements ∧ (readPart text).complete = true := by
  refine @Reading.ofLexemes_complete _ _ last ?_ cut.proper
  rw [cut.scans.scan, List.map_append]
  exact cut.covers.inFrontOf (settled_yield cut.proper) _

/-- The tree of the text in front is the tree that was read, at the same places. -/
theorem tree_eq (cut : Cut source text rest front last) : (readPart text).tree = (readPart source).tree := by
  obtain ⟨more, next⟩ := cut.next
  have same : (readPart text).tree.erase = (readPart source).tree.erase :=
    (congrArg (Tree.program .zero) (Same.ofList cut.complete.1)).symm
  have stands := readPart_stands source
  have stands' := readPart_stands text
  have scanned : Lexeme.scan source = front ++ (reading source).cursor.rest := by
    rw [cut.behind, Lexeme.scan, cut.whole, cut.scans.scanFrom, Nat.zero_add]
  rw [Stands, route_eq_of_erase_eq same, cut.scans.scan] at stands'
  rw [Stands, scanned] at stands
  have places := @Route.follow_append _ (readPart source).tree.route 0 front (reading source).cursor.rest
    [⟨.ending, last, ⟨text.length, text.length⟩⟩] (by rw [stands]) (by rw [next]; exact List.cons_ne_nil _ _)
    (.inr (by intro stop; rw [next]; rfl)) (by rintro _ ⟨⟩; exact Token.noConfusion)
  rwa [stands, stands'] at places

/-- All places in the tree lie in the text in front. -/
theorem fits (cut : Cut source text rest front last) : (readPart source).tree.All (Fits text.length) := by
  have within : Cursor.Within text.length ⟨0, Lexeme.scan text⟩ := by
    refine ⟨Nat.zero_le _, ?_⟩
    rw [cut.scans.scan, List.forall_mem_append]
    refine ⟨?_, by simp⟩
    intro lexeme member
    have inside := cut.scans.inside lexeme member
    rwa [Nat.zero_add] at inside
  have fits := @routeFits text.length _ (readPart text).tree (pure ()) (pure ()) _ within
  rwa [readPart_stands text, cut.tree_eq] at fits

theorem not_atEnd (cut : Cut source text rest front last) : (reading source).cursor.atEnd = false := by
  obtain ⟨more, next⟩ := cut.next
  have marks : (reading source).cursor.marks = ((Token.read rest).1, last) :: more.map Lexeme.mark := by
    rw [Cursor.marks, next]
    rfl
  exact Cursor.not_atEnd_of_marks marks (Token.read_clean rest).2

/-- A place in the text is the same place in the source. -/
theorem position_eq (cut : Cut source text rest front last) {place : Nat} (inside : place ≤ text.length) :
    (Lines.ofSource [] text).position place = (Lines.ofSource [] source).position place := by
  have noFeed : rest.head? ≠ some 0x0A := by
    intro feed
    obtain ⟨tail, rfl⟩ := List.head?_eq_some_iff.mp feed
    cases cut.noTrivia
  rw [cut.whole]
  exact Lines.position_append [] text (fun feed => absurd feed noFeed) inside

/-- Behind the text come the lexemes of the rest, but for the line that may end before them. -/
theorem alike (cut : Cut source text rest front last) :
    (reading source).cursor.onLine.Alike ⟨0, Lexeme.scan rest⟩ := by
  obtain ⟨b, tail, rfl⟩ := List.exists_cons_of_ne_nil cut.nonempty
  have next := Cursor.rest_onLine (cut.behind.trans (Lexeme.scanFrom_of_read cut.noTrivia))
  have marks : (reading source).cursor.onLine.rest.map Lexeme.mark = Lexeme.marks false (b :: tail) := by
    rw [next, List.map_cons, Lexeme.scanFrom_marks, Lexeme.marks_of_token cut.noTrivia]
    rfl
  obtain ⟨front, last, scanned, -⟩ := Lexeme.scanFrom_clean 0 0 false (b :: tail)
  exact Lexeme.alike_of_marks (marks.trans scanned) scanned

/-- Behind the text no element can be read, whether or not a line ends before it. -/
theorem element_fails (cut : Cut source text rest front last) :
    (Grammar.ofDepth (Lexeme.scan rest).length).element.Fails ⟨0, Lexeme.scan rest⟩ := by
  have stuck : (Grammar.ofDepth (Lexeme.scan source).length).element.Fails (reading source).cursor.onLine :=
    (Grammar.ofDepth_element_starts _ _).trans (Reading.elementsFrom_stops (Grammar.ofDepth_sound (Nat.le_refl _))
      _ _ (Nat.le_refl _) (Nat.le_refl _) (Reading.clean_scan source) cut.not_atEnd)
  have short := (cursor_suffix source).length_le
  have length := cut.alike.length_eq
  rw [Cursor.length_onLine] at length
  rcases (Grammar.ofDepth_alike short (Nat.le_of_eq length)).element _ _ cut.alike
    (Nat.le_of_eq (Cursor.length_onLine _)) with ⟨_, stuck'⟩ | ⟨_, _, _, _, run, _⟩
  · exact stuck'
  · exact absurd stuck run.not_fails

/-- Nothing is read from the rest. -/
theorem parseLongest_rest (cut : Cut source text rest front last) :
    ∃ nothing, parseLongest rest = (nothing, rest, false) ∧ nothing.elements = [] := by
  obtain ⟨none, stays⟩ := @Reading.elementsFrom_fails _ (Lexeme.scan rest) _ cut.element_fails
  obtain ⟨b, tail, rfl⟩ := List.exists_cons_of_ne_nil cut.nonempty
  have scanned := @Lexeme.scanFrom_of_read 0 false b tail cut.noTrivia
  have marks : Cursor.marks ⟨0, Lexeme.scan (b :: tail)⟩ = _ := Lexeme.marks_of_token cut.noTrivia
  have complete : (readPart (b :: tail)).complete = false :=
    (congrArg Cursor.atEnd stays).trans (Cursor.not_atEnd_of_marks marks (Token.read_clean (b :: tail)).2)
  have stop : (readPart (b :: tail)).stop = 0 := by
    refine (congrArg Cursor.offset stays).trans ?_
    rw [Lexeme.scan, scanned]
    rfl
  refine ⟨⟨[], b :: tail, (readPart (b :: tail)).tree⟩, ?_, ?_⟩
  · rw [parseLongest, complete, stop]
    rfl
  · change (ofList (reading (b :: tail)).elements).toList = []
    rw [toList_ofList]
    exact none

end Cut

/-- Reading a program and reading the longest part agree. Where everything is read, nothing remains and the programs
are equal. Otherwise the error names what remains, the part in front of it is a program by itself with the same tree
and the same positions, and nothing can be read from what remains. -/
theorem parseLongest_agrees {source rest : Bytes} {program : Program} {complete : Bool}
    (run : parseLongest source = (program, rest, complete)) :
    (complete = true ↔ ∃ whole, parse [] source = .ok whole) ∧
    (complete = true → rest = [] ∧ parse [] source = .ok program) ∧
    (complete = false → rest ≠ [] ∧ (∃ error, parse [] source = .error error ∧ error.remaining = rest) ∧
      ∃ consumed, source = consumed ++ rest ∧ parse [] consumed = .ok { program with source := consumed } ∧
        (program.tree.All fun _ node => ∀ place ∈ node.places,
          (Lines.ofSource [] consumed).position place = (Lines.ofSource [] source).position place) ∧
        ∃ nothing, parseLongest rest = (nothing, rest, false) ∧ nothing.elements = []) := by
  obtain ⟨rfl, rfl, rfl⟩ : program = ⟨[], source, (readPart source).tree⟩ ∧
      rest = (if (readPart source).complete then [] else source.drop (readPart source).stop) ∧
      complete = (readPart source).complete := by
    cases run
    exact ⟨rfl, rfl, rfl⟩
  cases complete : (readPart source).complete with
  | true =>
    have accepted := @parse_of_complete [] source complete
    exact ⟨⟨fun _ => ⟨_, accepted⟩, fun _ => rfl⟩, fun _ => ⟨rfl, accepted⟩, Bool.noConfusion⟩
  | false =>
    have rejected : parse [] source = .error _ := if_neg (by rw [complete]; exact Bool.noConfusion)
    obtain ⟨text, rest, front, last, cut⟩ := exists_cut complete
    refine ⟨⟨Bool.noConfusion, ?_⟩, Bool.noConfusion, fun _ => ?_⟩
    · rintro ⟨whole, accepted⟩
      rw [rejected] at accepted
      cases accepted
    · rw [if_neg Bool.noConfusion, cut.drop_stop]
      refine ⟨cut.nonempty, ⟨_, rejected, cut.drop_stop⟩, text, cut.whole, ?_, ?_, cut.parseLongest_rest⟩
      · rw [parse_of_complete cut.complete.2, cut.tree_eq]
      · exact all_iff_nodes.mpr fun any member place held =>
          cut.position_eq (all_iff_nodes.mp cut.fits any member place held)

/-- The source `a;\r\nif (b) c; else )` is read up to its `else`. -/
theorem parseLongest_agrees_else : ∃ program rest,
    parseLongest (utf8 "a;\r\nif (b) c; else )") = (program, rest, false) ∧ rest = utf8 "else )" ∧
      parse [] (utf8 "a;\r\nif (b) c; ") = .ok { program with source := utf8 "a;\r\nif (b) c; " } ∧
      ∃ nothing, parseLongest rest = (nothing, rest, false) ∧ nothing.elements = [] := by
  obtain ⟨⟨program, rest, complete⟩, run⟩ : ∃ result, parseLongest (utf8 "a;\r\nif (b) c; else )") = result := ⟨_, rfl⟩
  have remains : (parseLongest (utf8 "a;\r\nif (b) c; else )")).2 = (utf8 "else )", false) := by decide +kernel
  rw [run] at remains
  cases remains
  obtain ⟨-, -, stopped⟩ := parseLongest_agrees run
  obtain ⟨-, -, consumed, split, accepted, -, nothing⟩ := stopped rfl
  have whole : utf8 "a;\r\nif (b) c; else )" = utf8 "a;\r\nif (b) c; " ++ utf8 "else )" := by decide +kernel
  obtain rfl := List.append_cancel_right (split.symm.trans whole)
  exact ⟨program, _, run, rfl, accepted, nothing⟩

end Program

end EcmaFold
