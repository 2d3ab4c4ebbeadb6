import EcmaFold.Lowering.Basic
import EcmaFold.Operator

/-!
Operators on lowered operands. If one operand of an arithmetic or comparison operator is a double, the
other is converted and the operation on doubles is performed; two integers use the integer operation.
Shifts and bitwise operators first convert to 32 bits.
-/

namespace EcmaFold.Lowering

open Lowered

/-- A number as a double; an integer is converted. -/
def toFloat (v : Value) : Lowered Value :=
  match v with
  | .int _ => unary .sitofp v
  | _ => return v

/-- Performs the integer or the double form of an operation on two numbers. -/
def promoted (onInts onFloats : BinaryInstr) (x y : Value) : Lowered Value :=
  match x, y with
  | .int _, .int _ => binary onInts x y
  | _, _ => do
    let x ← toFloat x
    let y ← toFloat y
    binary onFloats x y

def isStrict : BinaryOp → Bool
  | .strictEq | .strictNe => true
  | _ => false

/-- An arithmetic operation. One that would trap is not lowered. -/
def arithmetic (op : BinaryOp) (onInts onFloats : BinaryInstr) (offset : Nat) (x y : Value) :
    Lowered Value := do
  if x.isNumeric && y.isNumeric then
    match ← promoted onInts onFloats x y with
    | .unsupported construct => unsupported construct offset
    | v => return v
  else propagate op.spelling offset [x, y]

/-- A shift or bitwise operation. -/
def onWords (op : BinaryOp) (instr : BinaryInstr) (offset : Nat) (x y : Value) : Lowered Value := do
  if x.isNumeric && y.isNumeric then
    let x ← unary .toInt32 x
    let y ← unary .toInt32 y
    binary instr x y
  else propagate op.spelling offset [x, y]

/-- A comparison of two numbers. -/
def compare (pred : Pred) (x y : Value) : Lowered Value := promoted (.icmp pred) (.fcmp pred) x y

/-- An order comparison, which only numbers have. -/
def order (op : BinaryOp) (pred : Pred) (offset : Nat) (x y : Value) : Lowered Value :=
  if x.isNumeric && y.isNumeric then compare pred x y
  else propagate op.spelling offset [x, y]

/-- An equality. Numbers are compared after promotion, and texts, booleans and nulls by value. Values of
different kinds are strictly different; a loose comparison of them would need coercion. -/
def equality (op : BinaryOp) (pred : Pred) (offset : Nat) (x y : Value) : Lowered Value :=
  if x.isConst && y.isConst then
    if x.isNumeric && y.isNumeric then compare pred x y
    else
      match x, y with
      | .bool _, .bool _ => binary (.icmp pred) x y
      | _, _ =>
        if x.kind = y.kind then return .bool (decide (x.toText = y.toText) != decide (pred = .ne))
        else if isStrict op then return .bool (decide (pred = .ne))
        else unsupported (utf8 "coercing " ++ op.spelling) offset
  else propagate op.spelling offset [x, y]

/-- Selects an operand by the truth of the first one. -/
def logical (op : BinaryOp) (offset : Nat) (x y : Value) : Lowered Value :=
  match x.truthy? with
  | some truth =>
    if y.isConst then return if truth == decide (op = .lor) then x else y
    else propagate op.spelling offset [x, y]
  | none => propagate op.spelling offset [x, y]

/-- A binary operator on lowered operands; `offset` is that of the right operand. -/
def binaryOp (op : BinaryOp) (offset : Nat) (x y : Value) : Lowered Value :=
  match op with
  | .add => arithmetic .add .add .fadd offset x y
  | .sub => arithmetic .sub .sub .fsub offset x y
  | .mul => arithmetic .mul .mul .fmul offset x y
  | .div => arithmetic .div .sdiv .fdiv offset x y
  | .mod => arithmetic .mod .srem .frem offset x y
  | .shl => onWords .shl .shl offset x y
  | .sar => onWords .sar .ashr offset x y
  | .shr => onWords .shr .lshr offset x y
  | .bitAnd => onWords .bitAnd .and offset x y
  | .bitOr => onWords .bitOr .or offset x y
  | .bitXor => onWords .bitXor .xor offset x y
  | .lt => order .lt .lt offset x y
  | .gt => order .gt .gt offset x y
  | .le => order .le .le offset x y
  | .ge => order .ge .ge offset x y
  | .eq => equality .eq .eq offset x y
  | .ne => equality .ne .ne offset x y
  | .strictEq => equality .strictEq .eq offset x y
  | .strictNe => equality .strictNe .ne offset x y
  | .land => logical .land offset x y
  | .lor => logical .lor offset x y
  | .instanceOf => unsupported BinaryOp.instanceOf.spelling offset
  | .isIn => unsupported BinaryOp.isIn.spelling offset

/-- The result of a unary operator, if it is lowered for this operand. -/
def unaryResult? (op : UnaryOp) (v : Value) : Option (Lowered Value) :=
  match op, v with
  | .plus, .int _ | .plus, .float _ => some (return v)
  | .minus, .int _ => some (unary .neg v)
  | .minus, .float _ => some (unary .fneg v)
  | .not, _ => v.truthy?.map fun truth => unary .not (.bool truth)
  | .bitNot, .int _ | .bitNot, .float _ => some do
    let v ← unary .toInt32 v
    binary .xor v (.int (-1))
  | .typeof, _ => v.typeOf?.map fun text => return .string text
  | _, _ => none

/-- A unary operator on a lowered operand. -/
def unaryOp (op : UnaryOp) (offset : Nat) (v : Value) : Lowered Value :=
  (unaryResult? op v).getD (propagate op.spelling offset [v])

/-- Unary operators on a lowered operand, the last one first. -/
def unaryOps : (ops : List UnaryOp) → (offset : Nat) → Value → Lowered Value
  | [], _, v => return v
  | op :: rest, offset, v => do
    let v ← unaryOps rest offset v
    unaryOp op offset v

end EcmaFold.Lowering
