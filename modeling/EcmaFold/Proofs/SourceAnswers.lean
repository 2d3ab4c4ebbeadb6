import EcmaFold.Program
import EcmaFold.Proofs.Parser.AnswersStatement
import Mathlib.Logic.Function.Iterate

/-!
Reading a whole source. The grammar answers once it may nest as deep as there are lexemes, whatever it nests in, and so
does the loop over the source elements: a reading that stops before the end reports why.
-/

namespace EcmaFold

namespace Grammar

variable {source : Bytes}

theorem ofDepth_eq_iterate (depth : Nat) : ofDepth depth = deepen^[depth] (ofDepth 0) := by
  induction depth with
  | zero => rfl
  | succ depth ih => rw [Function.iterate_succ_apply', ← ih, ofDepth]

/-- Once it nests as deep as there are lexemes left, what a grammar nests in makes no difference. -/
theorem iterate_answering {n d d' : Nat} (h h' : Grammar) (deep : n ≤ d) (deep' : n ≤ d') :
    Answering source n n (deepen^[d] h) (deepen^[d'] h') := by
  induction n generalizing d d' with
  | zero => exact answering_zero
  | succ n ih =>
    obtain ⟨d, rfl⟩ := Nat.exists_eq_add_of_le' deep
    obtain ⟨d', rfl⟩ := Nat.exists_eq_add_of_le' deep'
    rw [← Nat.add_assoc, ← Nat.add_assoc, Function.iterate_succ_apply', Function.iterate_succ_apply']
    exact (ih (Nat.le_add_left n d) (Nat.le_add_left n d')).deepen

theorem ofDepth_answering {n d d' : Nat} (deep : n ≤ d) (deep' : n ≤ d') :
    Answering source n n (ofDepth d) (ofDepth d') := by
  rw [ofDepth_eq_iterate d, ofDepth_eq_iterate d']
  exact iterate_answering _ _ deep deep'

end Grammar

namespace Reading

open EcmaFold.Parser

variable {source : Bytes} {n : Nat} {g g' : Grammar}

/-- What a reading from a cursor tells of the source. -/
structure Tells (source : Bytes) (c : Cursor) (reading : Reading) : Prop where
  explains : ∀ found ∈ reading.failure, found.Explains source
  reports : reading.cursor.atEnd = false → Failure.Reported reading.cursor.offset reading.failure
  leads : c.Leads reading.cursor
  nonempty : reading.cursor.rest ≠ []
  good : ∀ element ∈ reading.elements, element.Faithful source

theorem elementsFrom_of_fails {bound : List Lexeme} {head : Lexeme} {c : Cursor} (going : c.atEnd = false)
    (stuck : g.element.Fails c) : elementsFrom g (head :: bound) c = ⟨[], c, (g.element c).failure⟩ := by
  rw [elementsFrom, if_neg (by simp [going])]
  rcases reply : g.element c with ⟨_ | ⟨element, after⟩, failure⟩
  · rfl
  · simp [Fails, reply] at stuck

theorem elementsFrom_of_gives {bound : List Lexeme} {head : Lexeme} {c after : Cursor} {element : Node .element}
    (going : c.atEnd = false) (run : g.element.Gives c element after) :
    elementsFrom g (head :: bound) c = ⟨element :: (elementsFrom g bound after).elements,
      (elementsFrom g bound after).cursor,
      Failure.merge (g.element c).failure (elementsFrom g bound after).failure⟩ := by
  rw [elementsFrom, if_neg (by simp [going])]
  rcases reply : g.element c with ⟨_ | ⟨element', after'⟩, failure⟩
  · simp [Gives, reply] at run
  · simp only [Gives, reply, Option.some.injEq, Prod.mk.injEq] at run
    obtain ⟨rfl, rfl⟩ := run
    rfl

/-- Reading source elements answers, whatever the bound as long as it is enough for the lexemes left. -/
theorem elementsFrom_answers (answering : Grammar.Answering source n n g g') (bound bound' : List Lexeme)
    (enough : n ≤ bound.length) (enough' : n ≤ bound'.length) (c : Cursor) (of : c.Of source)
    (short : c.rest.length ≤ n) :
    elementsFrom g bound c = elementsFrom g' bound' c ∧ Tells source c (elementsFrom g bound c) := by
  have positive := List.length_pos_iff.mpr of.ne_nil
  induction bound generalizing n bound' c with
  | nil =>
    rw [List.length_nil] at enough
    omega
  | cons head bound ih =>
    obtain _ | ⟨head', bound'⟩ := bound'
    · rw [List.length_nil] at enough'
      omega
    rw [List.length_cons] at enough enough'
    cases ended : c.atEnd with
    | true =>
      simp only [elementsFrom, ended, if_true, true_and]
      refine ⟨by rintro _ ⟨⟩, fun going => ?_, .refl c, of.ne_nil, List.forall_mem_nil _⟩
      rw [ended] at going
      cases going
    | false =>
      obtain ⟨same, explains, reports, leads⟩ := answering.element c of short
      rcases fails_or_gives g.element c with stuck | ⟨element, after, run⟩
      · have stuck' : g'.element.Fails c := by
          unfold Fails at stuck ⊢
          rwa [← same]
        rw [elementsFrom_of_fails ended stuck, elementsFrom_of_fails ended stuck', ← same]
        exact ⟨rfl, explains, fun _ => reports rfl stuck, .refl c, of.ne_nil, List.forall_mem_nil _⟩
      · have run' : g'.element.Gives c element after := by
          unfold Gives at run ⊢
          rwa [← same]
        obtain ⟨on, nonempty, taken, length, good, eaten⟩ := leads element after run
        obtain ⟨sameRest, tells⟩ := ih (answering.mono (Nat.sub_le n 1) (Nat.sub_le n 1)) bound' (by omega) (by omega)
          after (of.leads on nonempty) (by omega) (List.length_pos_iff.mpr nonempty)
        rw [elementsFrom_of_gives ended run, elementsFrom_of_gives ended run', ← same, ← sameRest]
        refine ⟨rfl, Failure.merge_explains explains tells.explains, fun going => ?_, on.trans tells.leads,
          tells.nonempty, List.forall_mem_cons.mpr ⟨good, tells.good⟩⟩
        exact (tells.reports going).merge_right

/-- The reading of a source tells. -/
theorem ofLexemes_tells (source : Bytes) : Tells source (.ofSource source) (ofLexemes (Lexeme.scan source)) :=
  (elementsFrom_answers (Grammar.ofDepth_answering (Nat.le_refl _) (Nat.le_refl _)) (Lexeme.scan source)
    (Lexeme.scan source) (Nat.le_refl _) (Nat.le_refl _) (.ofSource source) (Cursor.of_ofSource source)
    (Nat.le_refl _)).2

end Reading

/-- The source shows what a program that is accepted says of its tokens. -/
theorem Program.parse_faithful {file source : Bytes} {program : Program} (accepted : parse file source = .ok program) :
    program.tree.Faithful source := by
  simp only [parse] at accepted
  split at accepted
  · cases accepted
    exact ⟨trivial, Tree.all_ofList.mpr (Reading.ofLexemes_tells source).good⟩
  · cases accepted

end EcmaFold
