import EcmaFold.Ir.Fold
import EcmaFold.Lowering.Log

/-!
Computations that lower something: a value, with the instructions performed and the entries logged on
the way. What is performed or logged before has no influence on either.
-/

namespace EcmaFold

/-- A value with the instructions and log entries that led to it. -/
structure Lowered (α : Type) where
  value : α
  trace : Trace
  log : List LogEntry

namespace Lowered

variable {α β : Type}

protected def pure (value : α) : Lowered α := ⟨value, [], []⟩

protected def bind (first : Lowered α) (next : α → Lowered β) : Lowered β :=
  let second := next first.value
  ⟨second.value, first.trace ++ second.trace, first.log ++ second.log⟩

instance : Monad Lowered where
  pure := Lowered.pure
  bind := Lowered.bind

/-- Records an entry. -/
def note (entry : LogEntry) : Lowered Unit := ⟨(), [], [entry]⟩

/-- Performs an operation. -/
def perform (folded : Folded) : Lowered Value := ⟨folded.value, folded.trace, []⟩

def unary (instr : UnaryInstr) (x : Value) : Lowered Value := perform (instr.fold x)

def binary (instr : BinaryInstr) (x y : Value) : Lowered Value := perform (instr.fold x y)

/-- The placeholder for a construct at an offset, with its entry. -/
def unsupported (construct : Bytes) (offset : Nat) : Lowered Value := do
  note (.unsupported construct offset)
  return .unsupported construct

/-- The placeholder for a statement that needs basic blocks, with its entry. -/
def controlFlow (construct : String) (offset : Nat) : Lowered Value := do
  note (.controlFlow (utf8 construct) offset)
  return .controlFlow (utf8 construct)

/-- The first operand that is unsupported, so that what stopped lowering stays visible; a new
placeholder if there is none. -/
def propagate (construct : Bytes) (offset : Nat) (operands : List Value) : Lowered Value :=
  match operands.find? (·.isUnsupported) with
  | some operand => return operand
  | none => unsupported construct offset

end Lowered

end EcmaFold
