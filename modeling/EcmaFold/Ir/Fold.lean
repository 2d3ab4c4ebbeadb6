import EcmaFold.Ir.Instr

/-!
Performing operations on constants. An operation on operands that it is not for, or one that would trap,
gives a placeholder and records nothing.
-/

namespace EcmaFold

/-- The value of an operation and what it records: one instruction or none. -/
structure Folded where
  value : Value
  trace : Trace

namespace Folded

def emit (op : Opcode) (args : List Value) (result : Value) : Folded :=
  ⟨result, [⟨op, none, args, result⟩]⟩

def compare (op : Opcode) (pred : Pred) (x y : Value) (holds : Bool) : Folded :=
  ⟨.bool holds, [⟨op, some pred, [x, y], .bool holds⟩]⟩

/-- An operation that is not performed. -/
def refuse (construct : Bytes) : Folded := ⟨.unsupported construct, []⟩

end Folded

/-- The low 32 bits of an integer as a number without a sign. -/
def low32 (i : Int64) : Nat := (i.toInt % 0x100000000).toNat

/-- The low five bits of an integer, by which a shift goes. -/
def shiftCount (i : Int64) : Nat := (i.toInt % 32).toNat

/-- Operations with two operands. -/
inductive BinaryInstr where
  | add | sub | mul | sdiv | srem
  | fadd | fsub | fmul | fdiv | frem
  | shl | ashr | lshr | and | or | xor
  | icmp (pred : Pred)
  | fcmp (pred : Pred)
  deriving DecidableEq, Repr

namespace BinaryInstr

def opcode : BinaryInstr → Opcode
  | add => .add
  | sub => .sub
  | mul => .mul
  | sdiv => .sdiv
  | srem => .srem
  | fadd => .fadd
  | fsub => .fsub
  | fmul => .fmul
  | fdiv => .fdiv
  | frem => .frem
  | shl => .shl
  | ashr => .ashr
  | lshr => .lshr
  | and => .and
  | or => .or
  | xor => .xor
  | icmp _ => .icmp
  | fcmp _ => .fcmp

/-- The answer to operands of the wrong types. -/
def refusal (instr : BinaryInstr) : Folded := .refuse (instr.opcode.text ++ utf8 " operands")

/-- Why an integer division traps. -/
def divisionTrap? (x y : Int64) : Option Bytes :=
  if y = 0 then some (utf8 "integer division by zero")
  else if x = Int64.minValue ∧ y = -1 then some (utf8 "integer division overflow")
  else none

/-- A comparison of integers. -/
def compareInt : Pred → Int64 → Int64 → Bool
  | .eq, x, y => x = y
  | .ne, x, y => x ≠ y
  | .lt, x, y => x < y
  | .le, x, y => x ≤ y
  | .gt, x, y => y < x
  | .ge, x, y => y ≤ x

/-- A comparison of doubles. -/
def compareFloat : Pred → Float → Float → Bool
  | .eq, x, y => x == y
  | .ne, x, y => x != y
  | .lt, x, y => x < y
  | .le, x, y => x ≤ y
  | .gt, x, y => y < x
  | .ge, x, y => y ≤ x

/-- The result of an integer operation. Sums, differences and products wrap around; a quotient is
truncated and a remainder has the sign of the dividend; shifts work on the low 32 bits. -/
def onInts (instr : BinaryInstr) (x y : Int64) : Option Int64 :=
  match instr with
  | add => some (x + y)
  | sub => some (x - y)
  | mul => some (x * y)
  | sdiv => some (x / y)
  | srem => some (x % y)
  | shl => some (Int64.ofInt (wrap32 (wrap32 x.toInt <<< shiftCount y)))
  | ashr => some (Int64.ofInt (wrap32 x.toInt >>> shiftCount y))
  | lshr => some (Int64.ofInt (low32 x >>> shiftCount y : Nat))
  | and => some (x &&& y)
  | or => some (x ||| y)
  | xor => some (x ^^^ y)
  | _ => none

/-- The result of an operation on doubles. -/
def onFloats (instr : BinaryInstr) (x y : Float) : Option Float :=
  match instr with
  | fadd => some (x + y)
  | fsub => some (x - y)
  | fmul => some (x * y)
  | fdiv => some (x / y)
  | frem => some (Double.remainder x y)
  | _ => none

/-- Performs an operation. Integers and booleans compare as signed numbers. -/
def fold (instr : BinaryInstr) (x y : Value) : Folded :=
  match instr, x, y with
  | sdiv, .int a, .int b | srem, .int a, .int b =>
    match divisionTrap? a b, instr.onInts a b with
    | some trap, _ => .refuse trap
    | none, some result => .emit instr.opcode [x, y] (.int result)
    | none, none => instr.refusal
  | icmp pred, .int a, .int b => .compare .icmp pred x y (compareInt pred a b)
  | icmp pred, .bool _, .bool _ => .compare .icmp pred x y (compareInt pred x.toInt y.toInt)
  | fcmp pred, .float a, .float b => .compare .fcmp pred x y (compareFloat pred a b)
  | _, .int a, .int b =>
    match instr.onInts a b with
    | some result => .emit instr.opcode [x, y] (.int result)
    | none => instr.refusal
  | _, .float a, .float b =>
    match instr.onFloats a b with
    | some result => .emit instr.opcode [x, y] (.float result)
    | none => instr.refusal
  | _, _, _ => instr.refusal

end BinaryInstr

/-- Operations with one operand. -/
inductive UnaryInstr where
  | sitofp | toInt32 | neg | fneg | not
  deriving DecidableEq, Repr

namespace UnaryInstr

def text : UnaryInstr → Bytes
  | sitofp => utf8 "sitofp"
  | toInt32 => utf8 "toint32"
  | neg => utf8 "neg"
  | fneg => utf8 "fneg"
  | not => utf8 "not"

/-- The answer to an operand of the wrong type. -/
def refusal (instr : UnaryInstr) : Folded := .refuse (instr.text ++ utf8 " operand")

/-- Performs an operation. Conversion to 32 bits is recorded by the type of what is converted. -/
def fold (instr : UnaryInstr) (x : Value) : Folded :=
  match instr, x with
  | sitofp, .int i => .emit .sitofp [x] (.float (Float.ofInt i.toInt))
  | toInt32, .int i => .emit .trunc32 [x] (.int (Int64.ofInt (wrap32 i.toInt)))
  | toInt32, .float f => .emit .fptoi32 [x] (.int (Int64.ofInt (Double.toInt32 f)))
  | neg, .int i => .emit .neg [x] (.int (-i))
  | fneg, .float f => .emit .fneg [x] (.float (-f))
  | not, .bool b => .emit .not [x] (.bool !b)
  | _, _ => instr.refusal

end UnaryInstr

end EcmaFold
