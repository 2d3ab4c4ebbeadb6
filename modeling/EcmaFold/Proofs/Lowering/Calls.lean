import EcmaFold.Lowering.Tree

/-!
Lowering with a record of all operations that are asked for, also of those that are not performed.
-/

namespace EcmaFold

/-- What is asked for: an operation with its operands. -/
inductive Call where
  | unary (instr : UnaryInstr) (x : Value)
  | binary (instr : BinaryInstr) (x y : Value)

namespace Call

def fold : Call → Folded
  | unary instr x => instr.fold x
  | binary instr x y => instr.fold x y

end Call

/-- A value with all that was asked for, and with the log entries. -/
structure Called (α : Type) where
  value : α
  calls : List Call
  log : List LogEntry

namespace Called

variable {α β : Type}

protected def pure (value : α) : Called α := ⟨value, [], []⟩

protected def bind (first : Called α) (next : α → Called β) : Called β :=
  let second := next first.value
  ⟨second.value, first.calls ++ second.calls, first.log ++ second.log⟩

instance : Monad Called where
  pure := Called.pure
  bind := Called.bind

/-- Without the record of calls: the instructions that they performed are left. -/
def lowered (x : Called α) : Lowered α := ⟨x.value, x.calls.flatMap (·.fold.trace), x.log⟩

theorem lowered_bind (first : Called α) (next : α → Called β) :
    (first >>= next).lowered = first.lowered >>= fun v => (next v).lowered := by
  simp [lowered, bind, Called.bind, Lowered.bind]

/-- Asks for an operation. -/
def ask (call : Call) : Called Value := ⟨call.fold.value, [call], []⟩

def unary (instr : UnaryInstr) (x : Value) : Called Value := ask (.unary instr x)

def binary (instr : BinaryInstr) (x y : Value) : Called Value := ask (.binary instr x y)

/-- What asks for nothing. -/
def quiet (x : Lowered α) : Called α := ⟨x.value, [], x.log⟩

def unsupported (construct : Bytes) (offset : Nat) : Called Value := quiet (Lowered.unsupported construct offset)

def propagate (construct : Bytes) (offset : Nat) (operands : List Value) : Called Value :=
  quiet (Lowered.propagate construct offset operands)

end Called

/-! The operators with what they ask for -/

namespace Calling

open Called

/-- A number as a double; an integer is converted. -/
def toFloat (v : Value) : Called Value :=
  match v with
  | .int _ => unary .sitofp v
  | _ => return v

/-- Performs the integer or the double form of an operation on two numbers. -/
def promoted (onInts onFloats : BinaryInstr) (x y : Value) : Called Value :=
  match x, y with
  | .int _, .int _ => binary onInts x y
  | _, _ => do
    let x ← toFloat x
    let y ← toFloat y
    binary onFloats x y

/-- An arithmetic operation. One that would trap is not lowered. -/
def arithmetic (op : BinaryOp) (onInts onFloats : BinaryInstr) (offset : Nat) (x y : Value) :
    Called Value := do
  if x.isNumeric && y.isNumeric then
    match ← promoted onInts onFloats x y with
    | .unsupported construct => unsupported construct offset
    | v => return v
  else propagate op.spelling offset [x, y]

/-- A shift or bitwise operation. -/
def onWords (op : BinaryOp) (instr : BinaryInstr) (offset : Nat) (x y : Value) : Called Value := do
  if x.isNumeric && y.isNumeric then
    let x ← unary .toInt32 x
    let y ← unary .toInt32 y
    binary instr x y
  else propagate op.spelling offset [x, y]

/-- A comparison of two numbers. -/
def compare (pred : Pred) (x y : Value) : Called Value := promoted (.icmp pred) (.fcmp pred) x y

/-- An order comparison, which only numbers have. -/
def order (op : BinaryOp) (pred : Pred) (offset : Nat) (x y : Value) : Called Value :=
  if x.isNumeric && y.isNumeric then compare pred x y
  else propagate op.spelling offset [x, y]

/-- An equality. Numbers are compared after promotion, and texts, booleans and nulls by value. Values of
different kinds are strictly different; a loose comparison of them would need coercion. -/
def equality (op : BinaryOp) (pred : Pred) (offset : Nat) (x y : Value) : Called Value :=
  if x.isConst && y.isConst then
    if x.isNumeric && y.isNumeric then compare pred x y
    else
      match x, y with
      | .bool _, .bool _ => binary (.icmp pred) x y
      | _, _ =>
        if x.kind = y.kind then return .bool (decide (x.toText = y.toText) != decide (pred = .ne))
        else if Lowering.isStrict op then return .bool (decide (pred = .ne))
        else unsupported (utf8 "coercing " ++ op.spelling) offset
  else propagate op.spelling offset [x, y]

/-- A binary operator on lowered operands; `offset` is that of the right operand. -/
def binaryOp (op : BinaryOp) (offset : Nat) (x y : Value) : Called Value :=
  match op with
  | .add => arithmetic .add .add .fadd offset x y
  | .sub => arithmetic .sub .sub .fsub offset x y
  | .mul => arithmetic .mul .mul .fmul offset x y
  | .div => arithmetic .div .sdiv .fdiv offset x y
  | .mod => arithmetic .mod .srem .frem offset x y
  | .shl => onWords .shl .shl offset x y
  | .sar => onWords .sar .ashr offset x y
  | .shr => onWords .shr .lshr offset x y
  | .bitAnd => onWords .bitAnd .and offset x y
  | .bitOr => onWords .bitOr .or offset x y
  | .bitXor => onWords .bitXor .xor offset x y
  | .lt => order .lt .lt offset x y
  | .gt => order .gt .gt offset x y
  | .le => order .le .le offset x y
  | .ge => order .ge .ge offset x y
  | .eq => equality .eq .eq offset x y
  | .ne => equality .ne .ne offset x y
  | .strictEq => equality .strictEq .eq offset x y
  | .strictNe => equality .strictNe .ne offset x y
  | .land => quiet (Lowering.logical .land offset x y)
  | .lor => quiet (Lowering.logical .lor offset x y)
  | .instanceOf => unsupported BinaryOp.instanceOf.spelling offset
  | .isIn => unsupported BinaryOp.isIn.spelling offset

/-- The result of a unary operator, if it is lowered for this operand. -/
def unaryResult? (op : UnaryOp) (v : Value) : Option (Called Value) :=
  match op, v with
  | .plus, .int _ | .plus, .float _ => some (return v)
  | .minus, .int _ => some (unary .neg v)
  | .minus, .float _ => some (unary .fneg v)
  | .not, _ => v.truthy?.map fun truth => unary .not (.bool truth)
  | .bitNot, .int _ | .bitNot, .float _ => some do
    let v ← unary .toInt32 v
    binary .xor v (.int (-1))
  | .typeof, _ => v.typeOf?.map fun text => return .string text
  | _, _ => none

/-- A unary operator on a lowered operand. -/
def unaryOp (op : UnaryOp) (offset : Nat) (v : Value) : Called Value :=
  (unaryResult? op v).getD (propagate op.spelling offset [v])

/-- Unary operators on a lowered operand, the last one first. -/
def unaryOps : (ops : List UnaryOp) → (offset : Nat) → Value → Called Value
  | [], _, v => return v
  | op :: rest, offset, v => do
    let v ← unaryOps rest offset v
    unaryOp op offset v

end Calling

namespace Tree

/-- All that is asked for when a tree is lowered, in order. Only operators ask for something, and what stands in a place
that is not lowered is not asked for. -/
def calls : {shape : Shape} → Tree shape → (before : Value) → List Call
  | _, cons first rest, before => first.calls before ++ rest.calls (first.lower before).value
  | _, present node, before | _, ofStatement node, before | _, ofBlock node, before
  | _, declaration _ _ node, before | _, ofInstantiation node, before | _, instantiated node, before =>
    node.calls before
  | _, program _ part, _ | _, block _ part, _ | _, varStmt _ part, _ | _, exprStmt _ part, _
  | _, returnStmt _ part, _ | _, labeled _ _ part, _ | _, defaultClause _ part, _ | _, throwStmt _ part, _
  | _, catchClause _ _ part, _ | _, sequence _ part, _ | _, assign _ _ part, _ | _, plain _ part, _
  | _, update _ part _, _ | _, newExpr _ 0 part, _ | _, member _ part nil, _ | _, paren _ part, _ => part.calls .void
  | _, doWhile _ first second, _ | _, whileStmt _ first second, _ | _, withStmt _ first second, _
  | _, caseClause _ first second, _ | _, forIn _ _ first second, _ =>
    first.calls .void ++ second.calls .void
  | _, ifStmt _ first second third, _ | _, forInVar _ first second third, _ | _, tryStmt _ first second third, _
  | _, ternary _ first second third, _ =>
    first.calls .void ++ (second.calls .void ++ third.calls .void)
  | _, forStmt _ init cond post body, _ | _, forVar _ init cond post body, _
  | _, switchStmt _ init cond post body, _ =>
    init.calls .void ++ (cond.calls .void ++ (post.calls .void ++ body.calls .void))
  | _, level _ _ head operations, _ => head.calls .void ++ operations.calls (head.lower .void).value
  | _, operation _ op _ operand, before =>
    operand.calls .void ++ (Calling.binaryOp op.1 operand.span.start before (operand.lower .void).value).calls
  | _, unary span ops operand, _ =>
    operand.calls .void ++ (Calling.unaryOps ops span.start (operand.lower .void).value).calls
  | _, _, _ => []

end Tree

end EcmaFold
