import EcmaFold.CommandLine.Run

/-!
The program: reads what a call needs, carries it out, and writes what it leaves behind. At a terminal a
dialogue is held line by line; other input is read as a whole.
-/

namespace EcmaFold.Console

open EcmaFold.CommandLine

/-- Why a file could not be read. The number 21 stands for reading a directory. -/
def fileFault : IO.Error → FileFault
  | .inappropriateType _ code _ => if code = 21 then .isDirectory else .notDirectory
  | .permissionDenied .. => .denied
  | .invalidArgument .. => .nameTooLong
  | _ => .missing

def readFile (path : Bytes) : IO (Except FileFault Bytes) := do
  match String.fromUTF8? ⟨path.toArray⟩ with
  | none => return .error .missing
  | some name =>
    try return .ok (← IO.FS.readBinFile name).data.toList
    catch error => return .error (fileFault error)

def writeFile (path content : Bytes) : IO Unit := do
  match String.fromUTF8? ⟨path.toArray⟩ with
  | none => return
  | some name =>
    try IO.FS.writeBinFile name ⟨content.toArray⟩
    catch _ => return

def write (stream : IO.FS.Stream) (bytes : Bytes) : IO Unit := do
  stream.write ⟨bytes.toArray⟩
  stream.flush

/-- A file in the directory that a variable of the environment names. -/
def inDirectory (key usual file : String) : IO Bytes := do
  let directory := (← IO.getEnv key).getD usual
  return utf8 (directory ++ "/" ++ file)

partial def readRest (stream : IO.FS.Stream) (before : ByteArray) : IO ByteArray := do
  let more ← stream.read 65536
  if more.isEmpty then return before else readRest stream (before ++ more)

def finish (outcome : Outcome) : IO UInt32 := do
  write (← IO.getStdout) outcome.out
  write (← IO.getStderr) outcome.err
  match outcome.saved with
  | some (path, content) => writeFile path content
  | none => pure ()
  return outcome.exit.toUInt32

/-- Holds the rest of a dialogue at a terminal and gives the history it leaves. -/
partial def hold (prompt : Bytes) (level : LogLevel) (dialogue : Dialogue) : IO History := do
  let stdout ← IO.getStdout
  write stdout (dialogue.prompt prompt)
  let typed ← (← IO.getStdin).getLine
  match InputLine.next? (utf8 typed) with
  | none =>
    write stdout [0x0A]
    return dialogue.history
  | some (line, _) =>
    let reply := dialogue.feed line.text
    write stdout reply.out
    if level.shows .debug then write (← IO.getStderr) reply.log
    match reply.next with
    | .inl dialogue => hold prompt level dialogue
    | .inr history => return history

/-- Holds a dialogue. -/
def converse (settings : Settings) (level : LogLevel) (around : Surroundings) : IO UInt32 := do
  let stdin ← IO.getStdin
  if (← stdin.isTty) && Dialogue.isPrompt settings.prompt then
    write (← IO.getStdout) Dialogue.banner
    let history ← hold settings.prompt level (opening settings around)
    finish { saved := savedHistory settings around history }
  else
    let input ← readRest stdin .empty
    finish (CommandLine.converse settings level { around with input := input.data.toList })

/-- Carries out a call, given where settings and history usually are. -/
def carryOut (arguments : List Bytes) (settingsFile historyFile : Bytes) : IO UInt32 := do
  let call := (Call.ofArguments arguments).toOption
  let paths := settingsFile :: (call.bind (·.options.config)).toList ++
    (call.bind (·.sourceFile)).toList
  let files ← paths.mapM fun path => do
    return (path, ← if path = inputPath then pure (.ok []) else readFile path)
  let input ← if (call.map (·.readsInput)).getD false then readRest (← IO.getStdin) .empty
    else pure .empty
  let around : Surroundings :=
    { read := fun path => (files.lookup path).getD (.error .missing)
      input := input.data.toList
      settingsFile := some settingsFile
      historyFile := historyFile }
  match start arguments around with
  | .finished outcome => finish outcome
  | .dialogue settings level =>
    let history ← readFile (historyPath settings around)
    converse settings level { around with read := fun _ => history }

end EcmaFold.Console

def main (arguments : List String) : IO UInt32 := do
  let settingsFile ← EcmaFold.Console.inDirectory "HOME" "." ".kunjs.yaml"
  let historyFile ← EcmaFold.Console.inDirectory "TMPDIR" "/tmp" ".kunjs_history"
  EcmaFold.Console.carryOut (arguments.map EcmaFold.utf8) settingsFile historyFile
