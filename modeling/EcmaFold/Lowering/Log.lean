import EcmaFold.Ir.Instr
import EcmaFold.Source
import EcmaFold.Text.Quoted

/-!
The log of a lowering. An entry says what was not lowered and where, sums up a program, or shows an
instruction. All entries are of the level `debug`.
-/

namespace EcmaFold

/-- An entry of the log, with byte offsets for places. -/
inductive LogEntry where
  | unsupported (construct : Bytes) (offset : Nat)
  | controlFlow (construct : Bytes) (offset : Nat)
  | function (name : Bytes) (offset : Nat)
  /-- The end of a program: its file, the number of its elements, its value, and how many instructions
  are recorded by then. -/
  | program (file : Bytes) (elements : Nat) (value : Value) (ops : Nat)
  | instruction (index : Nat) (instr : Instr)

/-- The value of a field of an entry. -/
inductive LogField where
  | text (text : Bytes)
  | number (n : Nat)

def LogField.json : LogField → Bytes
  | text value => Quoted.json value
  | number n => Bytes.ofNat n

namespace LogEntry

def message : LogEntry → Bytes
  | unsupported .. => utf8 "unsupported construct"
  | controlFlow .. => utf8 "control flow not lowered"
  | function .. => utf8 "function declaration not lowered"
  | program .. => utf8 "compiled program"
  | instruction .. => utf8 "ir"

/-- The fields of an entry in order. -/
def fields (lines : Lines) : LogEntry → List (Bytes × LogField)
  | unsupported construct offset | controlFlow construct offset =>
    [(utf8 "construct", .text construct), (utf8 "pos", .text (lines.position offset).text)]
  | function name offset =>
    [(utf8 "name", .text name), (utf8 "pos", .text (lines.position offset).text)]
  | program file elements value ops =>
    [(utf8 "file", .text file), (utf8 "elements", .number elements),
      (utf8 "value", .text value.text), (utf8 "ops", .number ops)]
  | instruction index instr => [(utf8 "index", .number index), (utf8 "instr", .text instr.text)]

/-- An entry as a line of the log: its level, its message, and its fields as a JSON object. -/
def line (lines : Lines) (entry : LogEntry) : Bytes :=
  let shown := (entry.fields lines).map fun (key, field) => Quoted.json key ++ utf8 ": " ++ field.json
  utf8 "DEBUG\t" ++ entry.message ++ utf8 "\t\x7b" ++ Bytes.join (utf8 ", ") shown ++ utf8 "\x7d\n"

end LogEntry

end EcmaFold
