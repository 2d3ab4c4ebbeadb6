import EcmaFold.Compile
import EcmaFold.Proofs.Acceptance
import EcmaFold.Proofs.Lowering.Placeless
import EcmaFold.Proofs.TokenSequence
import EcmaFold.Proofs.Tree.LaidOut

/-!
The normalised source of a well-formed program is a program, and the same one up to positions. So formatting what
was read loses nothing, and a second time it changes nothing.
-/

namespace EcmaFold

open Piece (text)

/-- Parts on lines of their own are read up to the end. -/
theorem lays_paragraphs {parts : List (List Slot)} {laid : List (List Piece)}
    (each : List.Forall₂ (LaysBefore calm) parts laid) (newline : Bool) :
    ∃ last, Covers parts.flatten (Lexeme.marks newline (text (Layout.paragraphs laid))) [(.ending, last)] := by
  induction each generalizing newline with
  | nil => exact ⟨newline, rfl⟩
  | @cons part first parts laid lays _ ih =>
    obtain ⟨last, others⟩ := ih true
    have split : text (Layout.paragraphs (first :: laid)) =
        text first ++ 0x0A :: text (Layout.paragraphs laid) := by
      cases laid <;> simp [Layout.paragraphs, text, Piece.bytes, Bytes.spaces]
    have line : Trivia.piece? (0x0A :: text (Layout.paragraphs laid)) = some ⟨1, true⟩ := rfl
    have next := @Lexeme.marks_of_piece false _ _ _ line
    refine ⟨last, ?_⟩
    rw [split, List.flatten_cons]
    refine Covers.append (lays _ rfl newline) ?_
    rwa [next]

namespace Tree

/-- The normalised source of a well-formed program is scanned as the slots of the program. -/
theorem covers_format {tree : Node .program} (proper : tree.All Proper) (valid : tree.All ValidString) :
    ∃ last, Covers tree.yield (Lexeme.marks false tree.format) [(.ending, last)] := by
  cases tree with
  | program s elements =>
    have laid : List.Forall₂ (LaysBefore calm) elements.slots (elements.layout 0) :=
      (elements.laid proper.2 valid.2).list 0 Kind.noConfusion
    obtain ⟨last, covers⟩ := lays_paragraphs laid false
    rw [← show (program s elements).yield = elements.slots.flatten from List.append_nil _] at covers
    refine ⟨last, ?_⟩
    rwa [show (program s elements).format = text (Layout.paragraphs (elements.layout 0)) by
      simp [format, layout, text]]

end Tree

namespace Program

open EcmaFold.Tree

/-- A well-formed program is read from every source that spells its tokens in order, and its normalised source is
one of them. No such source is rejected or read as another program. -/
theorem parse_wellFormed (file : Bytes) {tree : Node .program} (wellFormed : tree.WellFormed) :
    (∀ source newline, Covers tree.yield (Lexeme.marks false source) [(.ending, newline)] →
      ∃ program, parse file source = .ok program ∧ program.tree.erase = tree.erase) ∧
    ∃ program, parse file tree.format = .ok program ∧ program.tree.erase = tree.erase := by
  obtain ⟨proper, valid⟩ := wellFormed
  refine ⟨fun source newline covers => parse_of_covers file proper covers, ?_⟩
  obtain ⟨last, covers⟩ := covers_format proper valid
  exact parse_of_covers file proper covers

/-- A conditional with both branches, a space before a point, signs that would run together and commas in an
array. -/
theorem parse_wellFormed_example :
    (readPart (utf8 "if (a) b = - -1 .c; else [d,,];")).tree.WellFormed ∧
    (∀ source newline, Covers (readPart (utf8 "if (a) b = - -1 .c; else [d,,];")).tree.yield
        (Lexeme.marks false source) [(.ending, newline)] →
      ∃ program, parse [] source = .ok program ∧
        program.tree.erase = (readPart (utf8 "if (a) b = - -1 .c; else [d,,];")).tree.erase) ∧
    ∃ program, parse [] (readPart (utf8 "if (a) b = - -1 .c; else [d,,];")).tree.format = .ok program ∧
      program.tree.erase = (readPart (utf8 "if (a) b = - -1 .c; else [d,,];")).tree.erase := by
  have complete : (readPart (utf8 "if (a) b = - -1 .c; else [d,,];")).complete = true := by decide +kernel
  have valid : (readPart (utf8 "if (a) b = - -1 .c; else [d,,];")).tree.All ValidString := by decide +kernel
  have wellFormed := And.intro (parse_covers (@parse_of_complete [] _ complete)).1 valid
  exact ⟨wellFormed, parse_wellFormed [] wellFormed⟩

/-- Formatting what was read gives a source of the same program: it is accepted, with the same tree up to
positions, the same normalised source, the same value and the same instructions. -/
theorem parse_format_of_parse (file' : Bytes) {file source : Bytes} {program : Program}
    (accepted : parse file source = .ok program) (valid : program.tree.All ValidString) :
    ∃ program', parse file' program.tree.format = .ok program' ∧ program'.tree.erase = program.tree.erase ∧
      program'.tree.format = program.tree.format ∧ program'.compile.value = program.compile.value ∧
      program'.compile.trace = program.compile.trace := by
  obtain ⟨proper, -⟩ := parse_covers accepted
  obtain ⟨last, covers⟩ := covers_format proper valid
  obtain ⟨program', accepted', same⟩ := parse_of_covers file' proper covers
  obtain ⟨value, trace⟩ := lower_same_of_erase_eq same .void
  refine ⟨program', accepted', same, ?_, value, trace⟩
  rw [← format_erase, same, format_erase]

/-- A string with an escape, and operators that would run together without spaces. -/
theorem parse_format_of_parse_example : ∃ program,
    parse [] (utf8 "x=+ +1+'\\u00e9'/-  -2;") = .ok program ∧ program.tree.All ValidString ∧
    ∃ program', parse [] program.tree.format = .ok program' ∧ program'.tree.erase = program.tree.erase ∧
      program'.tree.format = program.tree.format ∧ program'.compile.value = program.compile.value ∧
      program'.compile.trace = program.compile.trace := by
  have complete : (readPart (utf8 "x=+ +1+'\\u00e9'/-  -2;")).complete = true := by decide +kernel
  have valid : (readPart (utf8 "x=+ +1+'\\u00e9'/-  -2;")).tree.All ValidString := by decide +kernel
  have accepted := @parse_of_complete [] _ complete
  exact ⟨_, accepted, valid, parse_format_of_parse [] accepted valid⟩

end Program

end EcmaFold
