import EcmaFold.Proofs.Parser.CompleteElement
import EcmaFold.Proofs.Reading

/-!
No proper program is rejected or read as another one: a source whose marks a proper program covers is accepted, and
the program that is read is the same up to positions.
-/

namespace EcmaFold

theorem Cursor.atEnd_of_marks {c : Cursor} {newline : Bool} {more : List Mark}
    (marks : c.marks = (.ending, newline) :: more) : c.atEnd = true := by
  obtain ⟨_, _ | ⟨⟨token, _, _⟩, rest⟩⟩ := c
  · cases marks
  · cases marks
    rfl

theorem Cursor.not_atEnd_of_marks {c : Cursor} {t : Token} {newline : Bool} {more : List Mark}
    (marks : c.marks = (t, newline) :: more) (going : t ≠ .ending) : c.atEnd = false := by
  obtain ⟨_, _ | ⟨⟨token, _, _⟩, rest⟩⟩ := c
  · cases marks
  · cases marks
    cases token <;> first | rfl | exact absurd rfl going

/-- No part of a statement follows where nothing follows. -/
theorem noTail_ending {marks : List Mark} {newline : Bool} (same : marks = [(.ending, newline)]) : NoTail marks := by
  subst same
  simp [NoTail]

/-- What covers a list covers its first node and then the others. -/
theorem Covers.first {kind : Kind} {node : Node kind} {list : Tree (.list kind)} {marks rest : List Mark}
    (covers : Covers (Tree.cons node list).yield marks rest) :
    ∃ between, Covers node.yield marks between ∧ Covers list.yield between rest :=
  Covers.of_append (by rwa [← show (Tree.cons node list).yield = node.yield ++ list.yield from List.flatten_append])

namespace Reading

open EcmaFold.Parser EcmaFold.Tree

/-- Elements that cover all marks up to the end are read back. -/
theorem elementsFrom_complete {n : Nat} {g : Grammar} (complete : g.Complete n n) {newline : Bool} :
    ∀ (items : List (Node .element)) (bound : List Lexeme) (c : Cursor),
      Covers (ofList items).yield c.marks [(.ending, newline)] → c.marks.length ≤ n →
      c.marks.length ≤ bound.length → (ofList items).All Proper →
      List.Forall₂ Same items (elementsFrom g bound c).elements ∧ (elementsFrom g bound c).cursor.atEnd = true := by
  intro items
  induction items with
  | nil =>
    intro bound c covers _ _ _
    have ended : c.atEnd = true := Cursor.atEnd_of_marks covers
    rw [elementsFrom_atEnd ended]
    exact ⟨.nil, ended⟩
  | cons item items ih =>
    intro bound c covers short fits proper
    obtain ⟨between, first, others⟩ := covers.first
    obtain ⟨t, line, more, marks, starts, shorter, -⟩ := first.starts proper.1 Kind.noConfusion
    have going : c.atEnd = false := Cursor.not_atEnd_of_marks marks (by rintro rfl; cases starts)
    have follow : NoTail between := by
      cases items with
      | nil => exact noTail_ending others
      | cons second items =>
        obtain ⟨_, next, -⟩ := others.first
        obtain ⟨_, _, _, rfl, starts, -⟩ := next.starts proper.2.1 Kind.noConfusion
        exact noTail_of_startsStatement starts
    obtain ⟨element, after, run, rfl, same⟩ := complete.element item c between first short proper.1 follow
    rw [marks, List.length_cons] at short fits
    obtain _ | ⟨head, bound⟩ := bound
    · cases fits
    rw [List.length_cons] at fits
    have step := @elementsFrom_gives g bound head c after element going run
    rw [step.1, step.2]
    obtain ⟨rest, ended⟩ := ih bound after others (by omega) (by omega) proper.2
    exact ⟨.cons same rest, ended⟩

/-- Lexemes that proper elements cover up to the end are read as these elements. -/
theorem ofLexemes_complete {items : List (Node .element)} {lexemes : List Lexeme} {newline : Bool}
    (covers : Covers (ofList items).yield (lexemes.map Lexeme.mark) [(.ending, newline)])
    (proper : (ofList items).All Proper) :
    List.Forall₂ Same items (ofLexemes lexemes).elements ∧ (ofLexemes lexemes).isComplete = true := by
  have length : (lexemes.map Lexeme.mark).length ≤ lexemes.length := Nat.le_of_eq (List.length_map _)
  exact elementsFrom_complete (Grammar.ofDepth_complete (Nat.le_refl _)) items lexemes ⟨0, lexemes⟩ covers length
    length proper

end Reading

namespace Program

open EcmaFold.Tree

/-- A source that a proper program covers is accepted, and what is read is that program. -/
theorem parse_of_covers (file : Bytes) {source : Bytes} {tree : Node .program} {newline : Bool}
    (proper : tree.All Proper) (covers : Covers tree.yield (Lexeme.marks false source) [(.ending, newline)]) :
    ∃ program, parse file source = .ok program ∧ Same program.tree tree := by
  cases tree with
  | program s elements =>
    obtain ⟨items, rfl⟩ := exists_ofList elements
    have covers : Covers (ofList items).yield ((Lexeme.scan source).map Lexeme.mark) _ := covers.of_single rfl
    obtain ⟨same, complete⟩ := Reading.ofLexemes_complete covers proper.2
    refine ⟨_, parse_of_complete complete, ?_⟩
    exact congrArg (Tree.program .zero) (Same.ofList same).symm

/-- A source that a proper expression covers is accepted as an expression, and what is read is that expression. -/
theorem parseExpression_of_covers {source : Bytes} {expr : Node .sequence} {newline : Bool} (proper : expr.All Proper)
    (covers : Covers expr.yield (Lexeme.marks false source) [(.ending, newline)]) :
    ∃ found, parseExpression source = .ok found ∧ Same found expr := by
  have complete := Grammar.ofDepth_complete (Nat.le_refl (Lexeme.scan source).length)
  have stops : Stops true 1 [(.ending, newline)] := Stops.cons_iff.mpr Nat.one_pos
  obtain ⟨found, after, run, marks, same⟩ := complete.sequence true expr ⟨0, Lexeme.scan source⟩ _ covers
    (Nat.le_of_eq (List.length_map _)) proper nofun stops
  refine ⟨found, ?_, same.symm⟩
  unfold parseExpression
  simp only [show (Grammar.sequence _ true ⟨0, Lexeme.scan source⟩).result = _ from run,
    Cursor.atEnd_of_marks marks, if_true]

end Program

end EcmaFold
