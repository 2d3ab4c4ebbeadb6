import EcmaFold.Proofs.Lexer.Gap
import EcmaFold.Proofs.SourceAnswers

/-!
Rejections explain themselves. Whatever source is rejected, some rule has said what it missed, at a token where reading
stopped or behind it.
-/

namespace EcmaFold

namespace Expectation

/-- All that can be missed. -/
def all : List Expectation :=
  (.illegal :: .ending :: (Punct.all.map .punct ++ Word.all.map .word)).map symbol ++
    [identifier, expression, propertyName, endOfInput]

theorem mem_all (expectation : Expectation) : expectation ∈ all := by
  cases expectation with
  | symbol symbol =>
    refine List.mem_append_left _ (List.mem_map_of_mem ?_)
    cases symbol with
    | illegal => exact List.mem_cons_self
    | ending => exact List.mem_cons_of_mem _ List.mem_cons_self
    | punct p => simp [p.mem_all]
    | word w => simp [w.mem_all]
  | _ => exact List.mem_append_right _ (by decide)

/-- Different things that can be missed have different texts. -/
theorem text_injective : Function.Injective text := by
  have distinct : (all.map text).Nodup := by decide +kernel
  intro first second same
  exact List.inj_on_of_nodup_map distinct first.mem_all second.mem_all same

end Expectation

/-- The error explains the rejection of a source that reading stopped in at `stop`. -/
structure SyntaxError.Explains (source : Bytes) (stop : Nat) (error : SyntaxError) : Prop where
  remaining : error.remaining = source.drop stop
  stop_le : stop ≤ error.position.offset
  inside : error.position.offset ≤ source.length
  noTrivia : Scanner.skip ⟨source, error.position.offset⟩ = ⟨source, error.position.offset⟩
  nonempty : error.expected ≠ []
  nodup : (error.expected.map Expectation.text).Nodup

/-- What was reported where reading stopped or behind it explains the rejection. -/
theorem SyntaxError.exists_explains {source : Bytes} {stop : Nat} {failure : Option Failure} (file : Bytes)
    (explains : ∀ found ∈ failure, found.Explains source) (reported : Failure.Reported stop failure) :
    ∃ found, failure = some found ∧ (ofFailure file source stop failure).Explains source stop := by
  obtain ⟨found, rfl, behind⟩ := reported
  obtain ⟨inside, noTrivia, nonempty, nodup⟩ := explains found rfl
  have place : (ofFailure file source stop (some found)).position.offset = found.offset := Nat.min_eq_left inside
  refine ⟨found, rfl, rfl, ?_, ?_, ?_, nonempty, nodup.map Expectation.text_injective⟩
  · rwa [place]
  · rwa [place]
  · rw [place]
    exact Scanner.skip_eq_self noTrivia

namespace Program

open EcmaFold.Parser

/-- A program is rejected at a token that no source element can be read at. -/
theorem parse_error_explains {file source : Bytes} {error : SyntaxError} (rejected : parse file source = .error error) :
    (∃ failure, (readPart source).failure = some failure ∧
        error = .ofFailure file source (readPart source).stop (some failure)) ∧
      error.Explains source (readPart source).stop ∧ error.remaining ≠ [] ∧
      Scanner.skip ⟨source, (readPart source).stop⟩ = ⟨source, (readPart source).stop⟩ := by
  have tells := Reading.ofLexemes_tells source
  have of := (Cursor.of_ofSource source).leads tells.leads tells.nonempty
  simp only [parse] at rejected
  split at rejected
  · cases rejected
  · rename_i incomplete
    cases rejected
    have going : (Reading.ofLexemes (Lexeme.scan source)).cursor.atEnd = false := eq_false_of_ne_true incomplete
    obtain ⟨failure, found, explains⟩ : ∃ failure, (readPart source).failure = some failure ∧
        SyntaxError.Explains source (readPart source).stop _ :=
      SyntaxError.exists_explains file tells.explains (tells.reports going)
    refine ⟨⟨failure, found, by rw [found]⟩, explains, ?_, Scanner.skip_eq_self of.noTrivia⟩
    rw [explains.remaining, Ne, List.drop_eq_nil_iff, Nat.not_le]
    exact of.offset_lt_length going

/-- An expression is rejected because none can be read or because something stands behind it. -/
theorem parseExpression_error_explains {source : Bytes} {error : SyntaxError}
    (rejected : parseExpression source = .error error) :
    ∃ stop failure, error = .ofFailure [] source stop (some failure) ∧ error.Explains source stop := by
  have answering := @Grammar.ofDepth_answering source _ _ _ (Nat.le_refl (Lexeme.scan source).length) (Nat.le_refl _)
  have answers : Answers source _ _ _ ((Grammar.ofDepth _).sequence true) _ := answering.sequence
  obtain ⟨-, explains, reports, leads⟩ := answers (.ofSource source) (Cursor.of_ofSource source) (Nat.le_refl _)
  have explained {stop : Nat} {failure : Option Failure} (all : ∀ found ∈ failure, found.Explains source)
      (reported : Failure.Reported stop failure) (same : SyntaxError.ofFailure [] source stop failure = error) :
      ∃ stop failure, error = .ofFailure [] source stop (some failure) ∧ error.Explains source stop := by
    obtain ⟨found, rfl, explains⟩ := SyntaxError.exists_explains [] all reported
    exact ⟨stop, found, same.symm, same ▸ explains⟩
  simp only [parseExpression] at rejected
  split at rejected
  · rename_i stuck
    exact explained explains ((reports rfl stuck).mono (Nat.zero_le _)) (Except.error.inj rejected)
  · rename_i expr after run
    split at rejected
    · cases rejected
    · obtain ⟨on, nonempty, -⟩ := leads expr after run
      have trailing := explains_miss ((Cursor.of_ofSource source).leads on nonempty) .endOfInput
      refine explained (Failure.merge_explains explains (by rintro _ ⟨⟩; exact trailing)) ?_ (Except.error.inj rejected)
      exact Failure.Reported.merge_right ⟨_, rfl, Nat.le_refl _⟩

/-- Every rejection explains itself, of a program and of an expression: the failure that it shows was reported, names
something, each thing once, and lies at a token where reading stopped or behind it. Of a rejected program something is
left, which begins with a token. -/
theorem rejection_explains (file source : Bytes) (error : SyntaxError) :
    (parse file source = .error error →
      (∃ failure, (readPart source).failure = some failure ∧
          error = .ofFailure file source (readPart source).stop (some failure)) ∧
        error.Explains source (readPart source).stop ∧ error.remaining ≠ [] ∧
        Scanner.skip ⟨source, (readPart source).stop⟩ = ⟨source, (readPart source).stop⟩) ∧
    (parseExpression source = .error error →
      ∃ stop failure, error = .ofFailure [] source stop (some failure) ∧ error.Explains source stop) :=
  ⟨parse_error_explains, parseExpression_error_explains⟩

/-- `a +` is neither a program nor an expression. -/
theorem rejection_explains_unfinished :
    (∃ error, parse [] (utf8 "a +") = .error error ∧
      error.Explains (utf8 "a +") (readPart (utf8 "a +")).stop ∧ error.remaining ≠ []) ∧
    ∃ error stop, parseExpression (utf8 "a +") = .error error ∧ error.Explains (utf8 "a +") stop := by
  have noProgram : (parse [] (utf8 "a +")).isOk = false := by decide +kernel
  have noExpression : (parseExpression (utf8 "a +")).isOk = false := by decide +kernel
  constructor
  · cases result : parse [] (utf8 "a +") with
    | ok _ => simp [result, Except.isOk, Except.toBool] at noProgram
    | error error =>
      obtain ⟨-, explains, nonempty, -⟩ := (rejection_explains [] (utf8 "a +") error).1 result
      exact ⟨error, rfl, explains, nonempty⟩
  · cases result : parseExpression (utf8 "a +") with
    | ok _ => simp [result, Except.isOk, Except.toBool] at noExpression
    | error error =>
      obtain ⟨stop, -, -, explains⟩ := (rejection_explains [] (utf8 "a +") error).2 result
      exact ⟨error, stop, rfl, explains⟩

end Program

end EcmaFold
