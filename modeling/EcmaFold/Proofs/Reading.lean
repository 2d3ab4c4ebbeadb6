import EcmaFold.Program
import EcmaFold.Proofs.Parser.Nesting

/-!
Reading the source elements of a program: what one more element changes, and that the reading is the same
for lexemes that are alike.
-/

namespace EcmaFold

theorem Cursor.Alike.atEnd_eq {c d : Cursor} (alike : c.Alike d) : c.atEnd = d.atEnd := by
  obtain ⟨_, rest⟩ := c
  obtain ⟨_, rest'⟩ := d
  cases alike with
  | nil => rfl
  | @cons x y _ _ head _ =>
    obtain ⟨token, _, _⟩ := x
    obtain ⟨token', _, _⟩ := y
    obtain rfl : token = token' := head.1
    cases token <;> rfl

namespace Reading

open EcmaFold.Parser

variable {g : Grammar} {bound : List Lexeme} {head : Lexeme} {c after : Cursor}

theorem elementsFrom_atEnd (ended : c.atEnd = true) : elementsFrom g bound c = ⟨[], c, none⟩ := by
  cases bound with
  | nil => rfl
  | cons _ _ => simp [elementsFrom, ended]

theorem elementsFrom_fails (stuck : g.element.Fails c) :
    (elementsFrom g bound c).elements = [] ∧ (elementsFrom g bound c).cursor = c := by
  cases bound with
  | nil => exact ⟨rfl, rfl⟩
  | cons _ _ =>
    rw [elementsFrom]
    split
    · exact ⟨rfl, rfl⟩
    · split
      · exact ⟨rfl, rfl⟩
      · rename_i reply
        simp [Fails, reply] at stuck

theorem elementsFrom_gives {element : Node .element} (going : c.atEnd = false)
    (run : g.element.Gives c element after) :
    (elementsFrom g (head :: bound) c).elements = element :: (elementsFrom g bound after).elements ∧
      (elementsFrom g (head :: bound) c).cursor = (elementsFrom g bound after).cursor := by
  rw [elementsFrom, if_neg (by simp [going])]
  split
  · rename_i reply
    simp [Gives, reply] at run
  · rename_i reply
    simp only [Gives, reply, Option.some.injEq, Prod.mk.injEq] at run
    obtain ⟨rfl, rfl⟩ := run
    exact ⟨rfl, rfl⟩

/-- Grammars that agree read the same elements from alike cursors and stop at alike cursors. -/
theorem elementsFrom_alike {n : Nat} {g' : Grammar} (alike : Grammar.Alike n n g g') :
    ∀ (bound bound' : List Lexeme) (c d : Cursor), bound.length = bound'.length → c.Alike d →
      c.rest.length ≤ n →
      List.Forall₂ Tree.Same (elementsFrom g bound c).elements (elementsFrom g' bound' d).elements ∧
        (elementsFrom g bound c).cursor.Alike (elementsFrom g' bound' d).cursor := by
  intro bound
  induction bound with
  | nil =>
    intro bound' c d length same _
    obtain rfl : bound' = [] := List.length_eq_zero_iff.mp length.symm
    exact ⟨.nil, same⟩
  | cons head bound ih =>
    intro bound' c d length same short
    obtain _ | ⟨head', bound'⟩ := bound'
    · cases length
    cases ended : c.atEnd with
    | true =>
      rw [elementsFrom_atEnd ended, elementsFrom_atEnd (same.atEnd_eq ▸ ended)]
      exact ⟨.nil, same⟩
    | false =>
      have ended' : d.atEnd = false := same.atEnd_eq ▸ ended
      rcases alike.element c d same short with
        ⟨stuck, stuck'⟩ | ⟨v, after, w, after', run, run', related, sameAfter, shrinks⟩
      · simp [elementsFrom_fails stuck, elementsFrom_fails stuck', same]
      · have rest := ih bound' after after' (by simpa using length) sameAfter (by omega)
        have step := @elementsFrom_gives g bound head c after v ended run
        have step' := @elementsFrom_gives g' bound' head' d after' w ended' run'
        rw [step.1, step.2, step'.1, step'.2]
        exact ⟨.cons related rest.1, rest.2⟩

/-- The reading of alike lexemes is the same up to positions. -/
theorem ofLexemes_alike {lexemes lexemes' : List Lexeme} (alike : List.Forall₂ Lexeme.Alike lexemes lexemes') :
    List.Forall₂ Tree.Same (ofLexemes lexemes).elements (ofLexemes lexemes').elements ∧
      (ofLexemes lexemes).isComplete = (ofLexemes lexemes').isComplete := by
  have length := alike.length_eq
  have grammars := Grammar.ofDepth_alike (Nat.le_refl lexemes.length) (Nat.le_of_eq length)
  have read := elementsFrom_alike grammars lexemes lexemes' ⟨0, lexemes⟩ ⟨0, lexemes'⟩ length alike
    (Nat.le_refl _)
  exact ⟨read.1, read.2.atEnd_eq⟩

end Reading

namespace Program

theorem parse_of_complete {file source : Bytes} (complete : (readPart source).complete = true) :
    parse file source = .ok ⟨file, source, (readPart source).tree⟩ := by
  rw [parse, if_pos complete]

theorem parse_eq_error {file source : Bytes} (incomplete : (readPart source).complete = false) :
    parse file source =
      .error (SyntaxError.ofFailure file source (readPart source).stop (readPart source).failure) := by
  rw [parse, if_neg (by simp [incomplete])]

theorem parse_of_incomplete {file source : Bytes} (incomplete : (readPart source).complete = false) :
    ∃ error, parse file source = .error error :=
  ⟨_, parse_eq_error incomplete⟩

/-- Only what is read whole is accepted. -/
theorem eq_of_parse {file source : Bytes} {program : Program} (accepted : parse file source = .ok program) :
    (readPart source).complete = true ∧ program = ⟨file, source, (readPart source).tree⟩ := by
  simp only [parse] at accepted
  split at accepted
  · cases accepted
    exact ⟨‹_›, rfl⟩
  · cases accepted

end Program

end EcmaFold
