import EcmaFold.Lowering.Tree
import EcmaFold.Program

/-!
Compiling programs: the value of the last source element, the instructions performed, and the log.
-/

namespace EcmaFold.Program

/-- Lowers a program after `recorded` instructions of earlier ones, and logs a summary. -/
def lowerAfter (program : Program) (recorded : Nat) : Lowered Value :=
  let lowered := program.tree.lower .void
  { lowered with
    log := lowered.log ++
      [.program program.file program.length lowered.value (recorded + lowered.trace.length)] }

/-- Compiles a program by itself. -/
def compile (program : Program) : Lowered Value := program.lowerAfter 0

/-- One entry for each instruction. -/
def traceLog (trace : Trace) : List LogEntry :=
  trace.zipIdx.map fun (instr, i) => .instruction i instr

/-- The log of a compilation, with its instructions if they are asked for. -/
def fullLog (compiled : Lowered Value) (withTrace : Bool) : List LogEntry :=
  compiled.log ++ if withTrace then traceLog compiled.trace else []

/-- Programs that are compiled one after the other and record into one trace. A rejected one leaves the
trace as it is. Gives for each its value's text or the reason of its rejection with the number of
instructions recorded so far, and the trace. -/
def compileSession : (sources : List Bytes) → Trace → List (Bytes × Nat) × Trace
  | [], recorded => ([], recorded)
  | source :: rest, recorded =>
    let (text, recorded) := match parse [] source with
      | .error error => (error.placed, recorded)
      | .ok program =>
        let lowered := program.lowerAfter recorded.length
        (lowered.value.text, recorded ++ lowered.trace)
    let (steps, last) := compileSession rest recorded
    ((text, recorded.length) :: steps, last)

end EcmaFold.Program
