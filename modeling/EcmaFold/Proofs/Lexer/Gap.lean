import EcmaFold.Lexer.Scanner
import EcmaFold.Proofs.Lexer.Chunks

/-!
The trivia at a place, piece by piece, and the rules behind them. What a piece adds to the trivia is its length, and a
line terminator if one ends in it.
-/

namespace EcmaFold

namespace Trivia

theorem gapFrom_pending {pending : Nat} {bytes : Bytes} (inside : pending ≤ bytes.length) :
    gapFrom pending bytes = ⟨pending + (gap (bytes.drop pending)).width, (gap (bytes.drop pending)).newline⟩ := by
  induction pending generalizing bytes with
  | zero => simp [gap]
  | succ pending ih =>
    obtain _ | ⟨b, rest⟩ := bytes
    · cases inside
    · rw [gapFrom, ih (by simpa using inside), List.drop_succ_cons]
      simp only [Nat.add_right_comm]

theorem gap_of_none {bytes : Bytes} (noTrivia : piece? bytes = none) : gap bytes = ⟨0, false⟩ := by
  cases bytes with
  | nil => rfl
  | cons b rest => rw [gap, gapFrom, noTrivia]

theorem gap_of_piece {text rest : Bytes} {newline : Bool} (isPiece : IsPiece text rest newline) :
    gap (text ++ rest) = ⟨text.length + (gap rest).width, newline || (gap rest).newline⟩ := by
  have found := isPiece.piece?
  cases text with
  | nil => exact absurd rfl isPiece.ne_nil
  | cons b text =>
    rw [List.cons_append] at found
    rw [List.cons_append, gap, gapFrom, found]
    simp only [List.length_cons, Nat.add_sub_cancel]
    rw [gapFrom_pending (by simp), List.drop_left, Nat.add_right_comm]

/-- What holds where no trivia stands, and stays so when a piece is put in front, holds of all bytes. -/
theorem gap_induction {motive : Bytes → Prop} (stops : ∀ bytes, piece? bytes = none → motive bytes)
    (piece : ∀ text rest newline, IsPiece text rest newline → motive rest → motive (text ++ rest)) (bytes : Bytes) :
    motive bytes := by
  generalize length : bytes.length = n
  induction n using Nat.strongRecOn generalizing bytes with
  | _ n ih =>
    cases found : piece? bytes with
    | none => exact stops bytes found
    | some gap =>
      obtain ⟨text, rest, rfl, -, isPiece⟩ := piece?_eq_some found
      have positive := List.length_pos_iff.mpr isPiece.ne_nil
      rw [List.length_append] at length
      exact piece text rest _ isPiece (ih rest.length (by omega) rest rfl)

theorem gap_width_le (bytes : Bytes) : (gap bytes).width ≤ bytes.length := by
  induction bytes using gap_induction with
  | stops bytes noTrivia => simp [gap_of_none noTrivia]
  | piece text rest newline isPiece ih =>
    rw [gap_of_piece isPiece, List.length_append]
    exact Nat.add_le_add_left ih _

end Trivia

namespace Scanner

/-- Where no trivia stands, passing over trivia does not move. -/
theorem skip_eq_self {source : Bytes} {offset : Nat} (noTrivia : Trivia.piece? (source.drop offset) = none) :
    skip ⟨source, offset⟩ = ⟨source, offset⟩ := by
  rw [skip, show rest ⟨source, offset⟩ = source.drop offset from rfl, Trivia.gap_of_none noTrivia]
  rfl

/-- Behind the trivia there are none. -/
theorem skip_skip (s : Scanner) : s.skip.skip = s.skip := by
  refine skip_eq_self ?_
  have nothing := Lexeme.piece?_behind_gap 0 s.rest
  rwa [rest, List.drop_drop] at nothing

theorem skip_offset_le {s : Scanner} (inside : s.offset ≤ s.source.length) : s.skip.offset ≤ s.source.length := by
  have width := Trivia.gap_width_le s.rest
  rw [rest, List.length_drop] at width
  exact Nat.add_le_of_le_sub' inside width

/-- A rule finds what stands behind the trivia. -/
theorem rule_eq_some {α : Type} {read : Bytes → Option (α × Nat)} {s after : Scanner} {value : α} :
    rule read s = some (value, after) ↔
      ∃ width, read s.skip.rest = some (value, width) ∧ after = s.skip.advance width := by
  simp only [rule, Option.map_eq_some_iff, Prod.exists, Prod.mk.injEq]
  grind

theorem identifierName?_eq_some {s after : Scanner} {name : Bytes} : s.identifierName? = some (name, after) ↔
    Name.read? s.skip.rest = some name ∧ after = s.skip.advance name.length := by
  rw [identifierName?, rule_eq_some]
  constructor
  · rintro ⟨width, found, rfl⟩
    obtain ⟨_, read, same⟩ := Option.map_eq_some_iff.mp found
    cases same
    exact ⟨read, rfl⟩
  · rintro ⟨read, rfl⟩
    exact ⟨name.length, by rw [read]; rfl, rfl⟩

theorem keyword?_eq_some {s after : Scanner} {symbol found : Symbol} : s.keyword? symbol = some (found, after) ↔
    (symbol.spelling <+: s.skip.rest ∧ Name.goesOn (s.skip.rest.drop symbol.spelling.length) = false) ∧
      found = symbol ∧ after = s.skip.advance symbol.spelling.length := by
  rw [keyword?, rule_eq_some]
  simp only [Option.ite_none_right_eq_some, Option.some.injEq, Prod.mk.injEq, List.isPrefixOf_iff_prefix,
    Bool.not_eq_true]
  grind

/-- An identifier is a name that is not reserved. -/
theorem identifier?_eq (s : Scanner) :
    s.identifier? = s.identifierName?.filter fun found => (Word.ofSpelling? found.1).isNone := by
  rw [identifier?, identifierName?, rule, rule, Name.identifier?]
  cases Name.read? s.skip.rest with
  | none => rfl
  | some name => cases reserved : (Word.ofSpelling? name).isNone <;> simp [Option.filter_some, reserved]

end Scanner

end EcmaFold
