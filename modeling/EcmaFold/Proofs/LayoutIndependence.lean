import EcmaFold.Proofs.Descent.Program
import EcmaFold.Proofs.Lexer.Sequence
import EcmaFold.Proofs.Reading

/-!
What a program is depends on its tokens and on where its lines end between them, and on nothing else of its
layout. The descent over bytes sees all of the layout, but it reads what the grammar reads from the lexemes, and the
grammar reads the same from lexemes that are alike.
-/

namespace EcmaFold

open Scanner (Item Items)

/-- Marks that differ at most in the line end before the end of the source belong to alike lexemes. -/
theorem Lexeme.alike_of_marks {lexemes lexemes' : List Lexeme} {marks : List Mark} {newline newline' : Bool}
    (same : lexemes.map mark = marks ++ [(.ending, newline)])
    (same' : lexemes'.map mark = marks ++ [(.ending, newline')]) :
    List.Forall₂ Alike lexemes lexemes' := by
  have related : List.Forall₂ (fun x y : Mark => x.1 = y.1 ∧ (x.2 = y.2 ∨ x.1 = .ending))
      (lexemes.map mark) (lexemes'.map mark) := by
    rw [same, same']
    refine List.rel_append ?_ (.cons ⟨rfl, .inr rfl⟩ .nil)
    exact List.forall₂_same.mpr fun _ _ => ⟨rfl, .inl rfl⟩
  rw [List.forall₂_map_left_iff, List.forall₂_map_right_iff] at related
  exact related

namespace Program

/-- The grammar reads the same from two sources with the same token sequence: both are accepted, with the same tree up
to positions, or both rejected. -/
theorem readPart_of_same_items {source source' : Bytes} {items : List (Item × Bool)}
    (sequence : Items (.ofSource source) items) (sequence' : Items (.ofSource source') items) :
    (readPart source).tree.erase = (readPart source').tree.erase ∧
      (readPart source).complete = (readPart source').complete := by
  obtain ⟨newline, marks⟩ := sequence.marks
  obtain ⟨newline', marks'⟩ := sequence'.marks
  have alike : List.Forall₂ Lexeme.Alike (Lexeme.scan source) (Lexeme.scan source') :=
    Lexeme.alike_of_marks marks marks'
  obtain ⟨elements, complete⟩ := Reading.ofLexemes_alike alike
  exact ⟨congrArg (Tree.program .zero) (Tree.Same.ofList elements), complete⟩

/-- Two sources with the same token sequence are both accepted by the descent over their bytes, with the same tree up to
positions, or both rejected. Comments and white space count only where they hold a line end. What the descent gives is
what the grammar gives. -/
theorem parse_of_same_items (file file' : Bytes) {source source' : Bytes} {items : List (Item × Bool)}
    (sequence : Items (.ofSource source) items) (sequence' : Items (.ofSource source') items) :
    (Descent.parse file source = parse file source ∧ Descent.parse file' source' = parse file' source') ∧
    ((∃ program program', Descent.parse file source = .ok program ∧ Descent.parse file' source' = .ok program' ∧
        program.tree.erase = program'.tree.erase) ∨
      ∃ error error', Descent.parse file source = .error error ∧ Descent.parse file' source' = .error error') := by
  obtain ⟨tree, complete⟩ := readPart_of_same_items sequence sequence'
  rw [Descent.parse_eq, Descent.parse_eq]
  refine ⟨⟨rfl, rfl⟩, ?_⟩
  cases accepted : (readPart source).complete with
  | true => exact .inl ⟨_, _, parse_of_complete accepted, parse_of_complete (complete ▸ accepted), tree⟩
  | false =>
    obtain ⟨error, rejected⟩ := parse_of_incomplete accepted
    obtain ⟨error', rejected'⟩ := parse_of_incomplete (complete ▸ accepted)
    exact .inr ⟨error, error', rejected, rejected'⟩

/-- The sources `a++;` and ` a++/* b */;` have the same items. -/
theorem parse_of_same_items_comment :
    (Descent.parse [] (utf8 "a++;") = parse [] (utf8 "a++;") ∧
      Descent.parse [] (utf8 " a++/* b */;") = parse [] (utf8 " a++/* b */;")) ∧
    ((∃ program program', Descent.parse [] (utf8 "a++;") = .ok program ∧
        Descent.parse [] (utf8 " a++/* b */;") = .ok program' ∧ program.tree.erase = program'.tree.erase) ∨
      ∃ error error', Descent.parse [] (utf8 "a++;") = .error error ∧
        Descent.parse [] (utf8 " a++/* b */;") = .error error') := by
  refine @parse_of_same_items [] [] _ _
    [(.name (utf8 "a"), false), (.punct .inc, false), (.punct .semicolon, false)] ?_ ?_
  · exact @Items.next _ ⟨utf8 "a++;", 1⟩ _ _ (by decide +kernel) (by decide +kernel) <|
      @Items.next _ ⟨utf8 "a++;", 3⟩ _ _ (by decide +kernel) (by decide +kernel) <|
      @Items.next _ ⟨utf8 "a++;", 4⟩ _ _ (by decide +kernel) (by decide +kernel) <| .done (by decide +kernel)
  · exact @Items.next _ ⟨utf8 " a++/* b */;", 2⟩ _ _ (by decide +kernel) (by decide +kernel) <|
      @Items.next _ ⟨utf8 " a++/* b */;", 4⟩ _ _ (by decide +kernel) (by decide +kernel) <|
      @Items.next _ ⟨utf8 " a++/* b */;", 12⟩ _ _ (by decide +kernel) (by decide +kernel) <|
      .done (by decide +kernel)

end Program

end EcmaFold
