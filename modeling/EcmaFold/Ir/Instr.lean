import EcmaFold.Ir.Value

/-!
Instructions as they are recorded: an operation on constants with its result.
-/

namespace EcmaFold

/-- The operations. -/
inductive Opcode where
  | add | sub | mul | sdiv | srem
  | fadd | fsub | fmul | fdiv | frem
  | sitofp | fptoi32 | trunc32
  | shl | ashr | lshr | and | or | xor
  | icmp | fcmp
  | neg | fneg | not
  deriving DecidableEq, Repr

namespace Opcode

/-- The operations in the order of their numbers. -/
def all : List Opcode :=
  [add, sub, mul, sdiv, srem, fadd, fsub, fmul, fdiv, frem, sitofp, fptoi32, trunc32,
    shl, ashr, lshr, and, or, xor, icmp, fcmp, neg, fneg, not]

def text : Opcode → Bytes
  | add => utf8 "add"
  | sub => utf8 "sub"
  | mul => utf8 "mul"
  | sdiv => utf8 "sdiv"
  | srem => utf8 "srem"
  | fadd => utf8 "fadd"
  | fsub => utf8 "fsub"
  | fmul => utf8 "fmul"
  | fdiv => utf8 "fdiv"
  | frem => utf8 "frem"
  | sitofp => utf8 "sitofp"
  | fptoi32 => utf8 "fptoi32"
  | trunc32 => utf8 "trunc32"
  | shl => utf8 "shl"
  | ashr => utf8 "ashr"
  | lshr => utf8 "lshr"
  | and => utf8 "and"
  | or => utf8 "or"
  | xor => utf8 "xor"
  | icmp => utf8 "icmp"
  | fcmp => utf8 "fcmp"
  | neg => utf8 "neg"
  | fneg => utf8 "fneg"
  | not => utf8 "not"

/-- The name of the operation with a number. -/
def nameOf (number : Nat) : Bytes :=
  match all[number]? with
  | some op => op.text
  | none => utf8 "op(" ++ Bytes.ofNat number ++ utf8 ")"

end Opcode

/-- How a comparison compares. -/
inductive Pred where
  | eq | ne | lt | le | gt | ge
  deriving DecidableEq, Repr

namespace Pred

def all : List Pred := [eq, ne, lt, le, gt, ge]

def text : Pred → Bytes
  | eq => utf8 "eq"
  | ne => utf8 "ne"
  | lt => utf8 "lt"
  | le => utf8 "le"
  | gt => utf8 "gt"
  | ge => utf8 "ge"

/-- As spelled for integers: an order is one of signed numbers. -/
def intText : Pred → Bytes
  | eq => eq.text
  | ne => ne.text
  | p => utf8 "s" ++ p.text

/-- As spelled for doubles: a comparison with NaN fails, except that NaN differs from all. -/
def floatText : Pred → Bytes
  | ne => utf8 "une"
  | p => utf8 "o" ++ p.text

end Pred

/-- A recorded instruction. Only comparisons have a predicate. -/
structure Instr where
  op : Opcode
  pred : Option Pred
  args : List Value
  result : Value

namespace Instr

def predText (instr : Instr) : Bytes :=
  match instr.op, instr.pred with
  | .icmp, some p => utf8 " " ++ p.intText
  | .fcmp, some p => utf8 " " ++ p.floatText
  | _, _ => []

/-- The operation, its operands and its result. -/
def text (instr : Instr) : Bytes :=
  instr.op.text ++ instr.predText ++ utf8 " " ++
    Bytes.join (utf8 ", ") (instr.args.map (·.text)) ++ utf8 " => " ++ instr.result.text

end Instr

/-- The instructions in the order in which they were performed. -/
abbrev Trace := List Instr

namespace Trace

/-- One numbered line for each instruction. -/
def disassemble (trace : Trace) : Bytes :=
  trace.zipIdx.flatMap fun (instr, i) =>
    Bytes.padLeft 48 4 (Bytes.ofNat i) ++ utf8 ": " ++ instr.text ++ utf8 "\n"

end Trace

end EcmaFold
