import EcmaFold.Parser.Basic
import EcmaFold.Proofs.Lexer.Placement

/-!
Cursors in a source. A cursor that a parser can be at stands behind some of the lexemes of its source, so the places it
knows are places of tokens, and they grow from cursor to cursor.
-/

namespace EcmaFold

namespace Cursor

/-- The cursor stands in the source: what it has left are the last lexemes of the source, and its stop lies before
them. -/
structure Of (source : Bytes) (c : Cursor) : Prop where
  suffix : c.rest <:+ Lexeme.scan source
  inOrder : Lexeme.InOrder source c.stop c.rest

/-- The cursor before the first token. -/
abbrev ofSource (source : Bytes) : Cursor := ⟨0, Lexeme.scan source⟩

theorem of_ofSource (source : Bytes) : (ofSource source).Of source := ⟨List.suffix_refl _, Lexeme.scan_inOrder source⟩

/-- Taking tokens leads from one cursor to the other. -/
inductive Leads : Cursor → Cursor → Prop where
  | refl (c : Cursor) : Leads c c
  | next {stop : Nat} {lexeme : Lexeme} {rest : List Lexeme} {after : Cursor}
      (more : Leads ⟨lexeme.span.stop, rest⟩ after) : Leads ⟨stop, lexeme :: rest⟩ after

variable {source : Bytes} {c between after : Cursor}

theorem Leads.trans (first : Leads c between) (second : Leads between after) : Leads c after := by
  induction first with
  | refl => exact second
  | next _ ih => exact .next (ih second)

theorem Leads.suffix (leads : Leads c after) : after.rest <:+ c.rest := by
  induction leads with
  | refl => exact List.suffix_refl _
  | next _ ih => exact ih.trans (List.suffix_cons _ _)

theorem Leads.length_le (leads : Leads c after) : after.rest.length ≤ c.rest.length := leads.suffix.length_le

namespace Of

theorem ne_nil (of : c.Of source) : c.rest ≠ [] := of.inOrder.ne_nil

theorem stop_le_offset (of : c.Of source) : c.stop ≤ c.offset := by
  obtain ⟨stop, rest⟩ := c
  cases of.inOrder with
  | ending inside => exact inside
  | token behind _ _ => exact behind

theorem offset_le_length (of : c.Of source) : c.offset ≤ source.length := by
  obtain ⟨stop, rest⟩ := c
  cases of.inOrder with
  | ending inside => exact Nat.le_refl _
  | token _ stands _ => exact Nat.le_trans (Nat.le_of_lt stands.start_lt) stands.stop_le

/-- Before the end, a token comes next. -/
theorem offset_lt_length (of : c.Of source) (going : c.atEnd = false) : c.offset < source.length := by
  obtain ⟨stop, rest⟩ := c
  cases of.inOrder with
  | ending inside => cases going
  | token _ stands _ => exact Nat.lt_of_lt_of_le stands.start_lt stands.stop_le

/-- No trivia stands at the next token. -/
theorem noTrivia (of : c.Of source) : Trivia.piece? (source.drop c.offset) = none := by
  obtain ⟨stop, rest⟩ := c
  cases of.inOrder with
  | ending inside =>
    change Trivia.piece? (source.drop source.length) = none
    rw [List.drop_length]
    rfl
  | token _ stands _ => exact stands.noTrivia

/-- Unless only the end of the source is left, a lexeme comes next, and the cursor behind it stands in the source. -/
theorem next {stop : Nat} {lexeme : Lexeme} {rest : List Lexeme} (of : Of source ⟨stop, lexeme :: rest⟩)
    (going : lexeme.token ≠ .ending ∨ rest ≠ []) :
    lexeme.At source ∧ lexeme ∈ Lexeme.scan source ∧ Of source ⟨lexeme.span.stop, rest⟩ := by
  have listed : lexeme ∈ Lexeme.scan source := of.suffix.subset List.mem_cons_self
  have suffix : rest <:+ Lexeme.scan source := (List.suffix_cons lexeme rest).trans of.suffix
  cases of.inOrder with
  | ending inside => exact absurd going (by simp)
  | token _ stands more => exact ⟨stands, listed, suffix, more⟩

/-- Wherever taking tokens leads, short of behind the end of the source, it stays in the source. -/
theorem leads (of : c.Of source) (leads : Leads c after) (nonempty : after.rest ≠ []) : after.Of source := by
  induction leads with
  | refl => exact of
  | @next stop lexeme rest after more ih =>
    have left : rest ≠ [] := fun empty => nonempty (List.suffix_nil.mp (empty ▸ more.suffix))
    exact ih (of.next (.inr left)).2.2 nonempty

theorem stop_le (of : c.Of source) (leads : Leads c after) (nonempty : after.rest ≠ []) : c.stop ≤ after.stop := by
  induction leads with
  | refl => exact Nat.le_refl _
  | @next stop lexeme rest after more ih =>
    have left : rest ≠ [] := fun empty => nonempty (List.suffix_nil.mp (empty ▸ more.suffix))
    obtain ⟨stands, -, behind⟩ := of.next (.inr left)
    have here := of.stop_le_offset
    have start := stands.start_lt
    exact Nat.le_trans (Nat.le_trans here (Nat.le_of_lt start)) (ih behind nonempty)

theorem offset_le (of : c.Of source) (leads : Leads c after) (nonempty : after.rest ≠ []) :
    c.offset ≤ after.offset := by
  cases leads with
  | refl => exact Nat.le_refl _
  | @next stop lexeme rest after more =>
    have left : rest ≠ [] := fun empty => nonempty (List.suffix_nil.mp (empty ▸ more.suffix))
    obtain ⟨stands, -, behind⟩ := of.next (.inr left)
    calc lexeme.span.start ≤ lexeme.span.stop := Nat.le_of_lt stands.start_lt
      _ ≤ after.stop := behind.stop_le more nonempty
      _ ≤ after.offset := (behind.leads more nonempty).stop_le_offset

/-- Where tokens were taken, the last of them comes directly before the lexemes that are left. -/
theorem exists_before (of : c.Of source) (leads : Leads c after) (nonempty : after.rest ≠ [])
    (shorter : after.rest.length < c.rest.length) :
    ∃ before, before :: after.rest <:+ Lexeme.scan source ∧ before.span.stop = after.stop := by
  induction leads with
  | refl => exact absurd shorter (Nat.lt_irrefl _)
  | @next stop lexeme rest after more ih =>
    have left : rest ≠ [] := fun empty => nonempty (List.suffix_nil.mp (empty ▸ more.suffix))
    by_cases last : after.rest.length < rest.length
    · exact ih (of.next (.inr left)).2.2 nonempty last
    · cases more with
      | refl => exact ⟨lexeme, of.suffix, rfl⟩
      | next further =>
        have bound := further.length_le
        rw [List.length_cons] at last
        simp only at bound
        omega

/-- Where tokens were taken, the source was left behind from the start of the first to the stop of the last of them. -/
theorem exists_taken (of : c.Of source) (leads : Leads c after) (nonempty : after.rest ≠ [])
    (shorter : after.rest.length < c.rest.length) : c.offset < after.stop ∧
      (∃ lexeme ∈ Lexeme.scan source, lexeme.At source ∧ c.offset = lexeme.span.start) ∧
        ∃ lexeme ∈ Lexeme.scan source, lexeme.At source ∧ after.stop = lexeme.span.stop := by
  obtain ⟨before, suffix, lastStop⟩ := of.exists_before leads nonempty shorter
  obtain ⟨next, others, left⟩ := List.exists_cons_of_ne_nil nonempty
  rw [left] at suffix
  have neighbours : [before, next] <:+: Lexeme.scan source :=
    (List.prefix_append [before, next] others).isInfix.trans suffix.isInfix
  have last := ((Lexeme.scan_inOrder source).between neighbours).1
  cases leads with
  | refl => exact absurd shorter (Nat.lt_irrefl _)
  | @next stop lexeme rest after more =>
    have left : rest ≠ [] := fun empty => nonempty (List.suffix_nil.mp (empty ▸ more.suffix))
    obtain ⟨stands, listed, behind⟩ := of.next (.inr left)
    exact ⟨Nat.lt_of_lt_of_le stands.start_lt (behind.stop_le more nonempty), ⟨lexeme, listed, stands, rfl⟩,
      before, suffix.subset List.mem_cons_self, last, lastStop.symm⟩

end Of

end Cursor

end EcmaFold
