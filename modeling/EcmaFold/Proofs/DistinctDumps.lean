import EcmaFold.Proofs.Acceptance
import EcmaFold.Proofs.TokenSequence
import EcmaFold.Proofs.Tree.Parts
import EcmaFold.Proofs.Tree.Settled

/-!
Different programs have different dumps. A dump leaves out the nodes that add nothing to the ones they wrap and the
punctuators, but the tokens of a program can be read from it, and these have one tree only.
-/

namespace EcmaFold

namespace Tree

open Outline

/-- The dump of a program is the outline of its elements between two parentheses. -/
theorem dump_program (span : Span) (elements : Tree (.list .element)) (indent : Int) :
    (program span elements).dump indent = Bytes.spaces indent.toNat ++
      (utf8 "(Program" ++ (elements.outline.lines (Bytes.spaces indent.toNat) 1 ++ (utf8 ")" ++ utf8 "\n"))) := by
  have shows : _ = _ := elements.outline_shows (Bytes.spaces indent.toNat) 1
  rw [← flatten_entries, ← shows]
  change (_ :: ([_] : List Dump.Entry).flatMap Dump.Entry.writes ++ [utf8 "\n"]).flatten = _
  simp only [List.flatMap_singleton, List.map_nil, List.cons_append, List.nil_append, List.flatten_cons,
    List.flatten_append, List.flatten_nil, List.append_nil, List.append_assoc]
  rfl

/-- Programs with the same dump have the same tokens in the same places. -/
theorem yield_of_dump {tree tree' : Node .program} (proper : tree.All Proper) (proper' : tree'.All Proper)
    {indent indent' : Int} (same : tree.dump indent = tree'.dump indent') : tree.yield = tree'.yield := by
  cases tree with
  | program span elements =>
    cases tree' with
    | program span' elements' =>
      rw [dump_program, dump_program] at same
      have spaces (indent : Int) : ∀ b ∈ Bytes.spaces indent.toNat, (b == 0x20) = true := by simp [Bytes.spaces]
      obtain ⟨base, opened⟩ := Bytes.append_inj_of_ends (spaces indent) (spaces indent') (by rintro b ⟨⟩; rfl)
        (by rintro b ⟨⟩; rfl) same
      rw [List.append_cancel_left_eq, base] at opened
      obtain ⟨outlines, -⟩ := lines_inj (outline_clean proper.2) (outline_clean proper'.2) opened
      have parts : elements.outline.parts = Part.under [] elements.slots := parts_outline proper.2
      have parts' : elements'.outline.parts = Part.under [] elements'.slots := parts_outline proper'.2
      have slots : elements.slots = elements'.slots := by
        have shown := congrArg (List.map Prod.snd) (parts.symm.trans ((congrArg Outline.parts outlines).trans parts'))
        rwa [Part.map_snd_under, Part.map_snd_under] at shown
      exact congrArg (fun slots : List (List Slot) => [slots.flatten].flatten) slots

end Tree

namespace Program

/-- Two programs whose dumps are the same, with whatever indents, are the same up to positions. -/
theorem erase_eq_of_dump_eq {file file' source source' : Bytes} {program program' : Program}
    (accepted : parse file source = .ok program) (accepted' : parse file' source' = .ok program') {indent indent' : Int}
    (same : program.tree.dump indent = program'.tree.dump indent') : program.tree.erase = program'.tree.erase := by
  obtain ⟨proper, -⟩ := parse_covers accepted
  obtain ⟨proper', marks, newline, scanned, covers, -⟩ := parse_covers accepted'
  have ended := covers.inFrontOf (Tree.settled_yield proper') [(.ending, newline)]
  rw [← scanned, ← Tree.yield_of_dump proper proper' same] at ended
  obtain ⟨program'', again, same⟩ := parse_of_covers file' proper ended
  obtain rfl := Except.ok.inj (accepted'.symm.trans again)
  exact same.symm

/-- A dump shows neither blanks nor semicolons that were left out. -/
theorem erase_eq_of_dump_eq_blanks :
    ∃ program program', parse [] (utf8 "if (a) b = [1, -c] + \"(\";") = .ok program ∧
      parse [] (utf8 "\nif(a)b=[1,-c,]+'(' ;") = .ok program' ∧
      program.tree.dump 0 = program'.tree.dump 0 ∧ program.tree.erase = program'.tree.erase := by
  have complete : (readPart (utf8 "if (a) b = [1, -c] + \"(\";")).complete = true ∧
      (readPart (utf8 "\nif(a)b=[1,-c,]+'(' ;")).complete = true := by decide +kernel
  have same : (readPart (utf8 "if (a) b = [1, -c] + \"(\";")).tree.dump 0 =
      (readPart (utf8 "\nif(a)b=[1,-c,]+'(' ;")).tree.dump 0 := by decide +kernel
  have accepted := @parse_of_complete [] _ complete.1
  have accepted' := @parse_of_complete [] _ complete.2
  exact ⟨_, _, accepted, accepted', same, erase_eq_of_dump_eq accepted accepted' same⟩

end Program

end EcmaFold
