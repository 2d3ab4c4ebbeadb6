import EcmaFold.Proofs.Reading
import EcmaFold.Proofs.SourceAnswers

/-!
What the grammar keeps on one line. Where a line terminator would change what a statement means, the program has none:
an operator ends on the line where the operand before it does, and a label or a value begins on the line of its
statement.
-/

namespace EcmaFold

/-! Words and operators -/

/-- No word has a part of a line terminator in it. -/
theorem Word.spelling_plain (word : Word) : ∀ b ∈ word.spelling, b ≠ 0x0A ∧ b ≠ 0x0D ∧ b < 0x80 := by
  have table : ∀ word ∈ Word.all, (word.spelling.all fun b => b ≠ 0x0A ∧ b ≠ 0x0D ∧ b < 0x80) = true := by
    decide +kernel
  exact fun b member => of_decide_eq_true (List.all_eq_true.mp (table word word.mem_all) b member)

/-- Nor has an operator behind an operand. -/
theorem UpdateOp.spelling_plain (op : UpdateOp) : ∀ b ∈ op.token.spelling, b ≠ 0x0A ∧ b ≠ 0x0D ∧ b < 0x80 := by
  cases op <;> decide +kernel

namespace Lexeme

variable {source : Bytes} {before lexeme : Lexeme} {word : Word} {op : UpdateOp} {start : Nat}

/-- No line begins from the start of a word up to what stands on the line behind it. -/
theorem BehindWord.unbroken (behind : lexeme.BehindWord source word start) :
    Unbroken source start lexeme.span.start ∧ start ≤ lexeme.span.start := by
  obtain ⟨before, joined, isWord, rfl⟩ := behind
  have spelled := joined.stands.spelledBy
  rw [isWord] at spelled
  refine ⟨(joined.stands.unbroken ?_).trans joined.unbroken, ?_⟩
  · rw [show before.span.text source = word.spelling from spelled]
    exact word.spelling_plain
  · exact Nat.le_trans (Nat.le_of_lt joined.stands.start_lt) joined.stop_le

/-- No line begins from the end of an operand up to the end of an operator on the same line. -/
theorem Joined.unbroken_operator (joined : Joined source before lexeme) (isOperator : lexeme.token = op.token) :
    Unbroken source before.span.stop lexeme.span.stop ∧ before.span.stop ≤ lexeme.span.stop := by
  have stands : lexeme.At source := by
    refine (scan_inOrder source).stands lexeme (joined.neighbours.subset (by simp)) ?_
    rw [isOperator]
    cases op <;> rintro ⟨⟩
  have spelled := stands.spelledBy
  rw [isOperator] at spelled
  refine ⟨joined.unbroken.trans (stands.unbroken ?_), ?_⟩
  · rw [show lexeme.span.text source = op.token.spelling by cases op <;> exact spelled]
    exact op.spelling_plain
  · exact Nat.le_trans joined.stop_le (Nat.le_of_lt stands.start_lt)

end Lexeme

namespace Tree

/-- A label comes next behind the word that a statement begins with, and begins on the same line. -/
def LabelOnLine (lines : Lines) (source : Bytes) (word : Word) (start : Nat) (label : Bytes) : Prop :=
  ∃ before lexeme : Lexeme, [before, lexeme] <:+: Lexeme.scan source ∧ before.token = .keyword word ∧
    before.span.start = start ∧ lexeme.token = .name label ∧
    (lines.position lexeme.span.start).line = (lines.position start).line

/-- How a node keeps to one line: an operator behind an operand ends on the line where the operand ends, and the value
or the label of a jump begins on the line of the jump. -/
def OnOneLine (lines : Lines) (source : Bytes) : (shape : Shape) → Tree shape → Prop
  | _, update span operand (some _) => (lines.position span.stop).line = (lines.position operand.span.stop).line
  | _, returnStmt span (present value) => (lines.position value.span.start).line = (lines.position span.start).line
  | _, throwStmt span value => (lines.position value.span.start).line = (lines.position span.start).line
  | _, continueStmt span (some label) => LabelOnLine lines source .kwContinue span.start label
  | _, breakStmt span (some label) => LabelOnLine lines source .kwBreak span.start label
  | _, _ => True

variable {source : Bytes} {word : Word} {start : Nat}

theorem labelOnLine_of_behindWord (file : Bytes) {label : Bytes}
    (attested : ∃ lexeme : Lexeme, lexeme.BehindWord source word start ∧ lexeme.token = .name label) :
    LabelOnLine (.ofSource file source) source word start label := by
  obtain ⟨lexeme, behind, isLabel⟩ := attested
  obtain ⟨unbroken, inOrder⟩ := behind.unbroken
  obtain ⟨before, joined, isWord, starts⟩ := behind
  exact ⟨before, lexeme, joined.neighbours, isWord, starts, isLabel, Lines.line_eq unbroken inOrder file⟩

theorem line_of_behindWord (file : Bytes) {value : Span}
    (attested : ∃ lexeme : Lexeme, lexeme.BehindWord source word start ∧ lexeme.span.start = value.start) :
    ((Lines.ofSource file source).position value.start).line = ((Lines.ofSource file source).position start).line := by
  obtain ⟨lexeme, behind, starts⟩ := attested
  obtain ⟨unbroken, inOrder⟩ := behind.unbroken
  rw [← starts]
  exact Lines.line_eq unbroken inOrder file

/-- A node that the source attests keeps to one line. -/
theorem Attested.onOneLine (file : Bytes) {shape : Shape} {node : Tree shape} (attested : node.Attested source shape) :
    node.OnOneLine (.ofSource file source) source shape := by
  cases node with
  | update span operand op =>
    cases op with
    | none => trivial
    | some op =>
      obtain ⟨before, lexeme, joined, operandStop, stop, isOperator⟩ := attested
      obtain ⟨unbroken, inOrder⟩ := joined.unbroken_operator isOperator
      simp only [OnOneLine, ← operandStop, ← stop]
      exact Lines.line_eq unbroken inOrder file
  | returnStmt span value =>
    cases value with
    | absent => trivial
    | present value => exact line_of_behindWord file attested
  | throwStmt span value => exact line_of_behindWord file attested
  | continueStmt span label =>
    cases label with
    | none => trivial
    | some label => exact labelOnLine_of_behindWord file attested
  | breakStmt span label =>
    cases label with
    | none => trivial
    | some label => exact labelOnLine_of_behindWord file attested
  | _ => trivial

end Tree

namespace Program

open EcmaFold.Tree

/-- Every node of a program that is accepted keeps to one line what belongs on one, whatever ends the lines of the
source and wherever its comments do. -/
theorem nodes_onOneLine {file source : Bytes} {program : Program} (accepted : parse file source = .ok program) :
    ∀ any ∈ program.tree.nodes, any.node.OnOneLine (.ofSource file source) source _ :=
  fun any member => (all_iff_nodes.mp (parse_faithful accepted) any member).onOneLine file

/-- The label behind `break`, the operator and what is thrown, of which the last two are on the second line. -/
theorem nodes_onOneLine_comments :
    ∃ program, parse [] (utf8 "l: do break /* */ l;\nwhile (a /* */ ++); throw [\n];") = .ok program ∧
      ∀ place ∈ [(Kind.statement, Span.mk 6 20), (.update, ⟨28, 38⟩), (.statement, ⟨41, 51⟩)],
        ∃ any ∈ program.tree.nodes, (any.kind, any.node.span) = place ∧ any.node.OnOneLine
          (.ofSource [] (utf8 "l: do break /* */ l;\nwhile (a /* */ ++); throw [\n];"))
          (utf8 "l: do break /* */ l;\nwhile (a /* */ ++); throw [\n];") _ := by
  have complete : (readPart (utf8 "l: do break /* */ l;\nwhile (a /* */ ++); throw [\n];")).complete = true := by
    decide +kernel
  have found : ∀ place ∈ [(Kind.statement, Span.mk 6 20), (.update, ⟨28, 38⟩), (.statement, ⟨41, 51⟩)],
      ∃ any ∈ (readPart (utf8 "l: do break /* */ l;\nwhile (a /* */ ++); throw [\n];")).tree.nodes,
        (any.kind, any.node.span) = place := by decide +kernel
  have accepted := @parse_of_complete [] _ complete
  refine ⟨_, accepted, fun place among => ?_⟩
  obtain ⟨any, member, same⟩ := found place among
  exact ⟨any, member, same, nodes_onOneLine accepted any member⟩

end Program

end EcmaFold
