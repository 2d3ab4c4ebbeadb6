import EcmaFold.CommandLine.Help
import EcmaFold.CommandLine.Offer
import EcmaFold.Repl.Dialogue
import EcmaFold.Settings

/-!
Carrying out a call. Arguments come first, then the settings, then the source, then the level of the log;
the first of them that is at fault is reported.
-/

namespace EcmaFold.CommandLine

/-- What a call finds around it. -/
structure Surroundings where
  /-- Reads a file. -/
  read : Bytes → Except FileFault Bytes
  /-- All of the standard input. -/
  input : Bytes
  /-- The usual settings file, which need not exist. -/
  settingsFile : Option Bytes
  /-- The usual place of the history. -/
  historyFile : Bytes

/-- The path under which the standard input is a file. -/
def inputPath : Bytes := utf8 "/dev/stdin"

/-- The content of a file or of the standard input. -/
def Surroundings.content (around : Surroundings) (path : Bytes) : Except FileFault Bytes :=
  if path = inputPath then .ok around.input else around.read path

/-- What a call leaves behind. -/
structure Outcome where
  exit : UInt8 := 0
  out : Bytes := []
  err : Bytes := []
  /-- A file that is written, with its content. -/
  saved : Option (Bytes × Bytes) := none

/-- A call that ends with a fault. -/
def Outcome.ofFault (fault : Fault) : Outcome := { exit := fault.exitCode, err := fault.report }

/-- The settings file of a call. -/
def Call.settingsFile (call : Call) (usual : Option Bytes) : Option Bytes :=
  match call.options.config with
  | none | some [] => usual
  | some path => some path

/-- Whether a call has to find its settings file: only the usual one may be missing. -/
def Call.needsSettingsFile (call : Call) : Bool := !(call.options.config.getD []).isEmpty

/-- The settings of a call: those of the file, with flags going first. -/
def Call.settings (call : Call) (around : Surroundings) : Except Fault Settings := do
  let settings ← match call.settingsFile around.settingsFile with
    | none => pure {}
    | some path =>
      match around.content path with
      | .ok content =>
        match Settings.parse? content with
        | some settings => pure settings
        | none => throw (.malformedSettings path)
      | .error fault =>
        if fault = .missing && !call.needsSettingsFile then pure {}
        else throw (.unreadableSettings path fault)
  return { settings with logLevel := call.options.logLevel.getD settings.logLevel }

/-- What is around a call once its settings are read: if they came from the standard input, there is
nothing left of it. -/
def Call.afterSettings (call : Call) (around : Surroundings) : Surroundings :=
  if call.settingsFile around.settingsFile = some inputPath then { around with input := [] } else around

/-- The level of the log. -/
def level (settings : Settings) : Except Fault LogLevel :=
  match LogLevel.ofText? settings.logLevel with
  | some level => .ok level
  | none => .error (.unknownLevel settings.logLevel)

/-- The file that a call reads its source from, if it is not the standard input. -/
def Call.sourceFile (call : Call) : Option Bytes := call.operands.head?.filter (· ≠ utf8 "-")

/-- Whether a call reads its settings or its source from the standard input. -/
def Call.readsInput (call : Call) : Bool :=
  !call.options.help && match call.verb with
    | none => false
    | some .repl | some .help => call.options.config = some inputPath
    | some .parse | some .format | some .compile =>
      call.options.config = some inputPath || (call.sourceFile.getD inputPath) = inputPath

/-- The name and the text of the source of a call. -/
def Call.source (call : Call) (around : Surroundings) : Except Fault (Bytes × Bytes) :=
  match call.sourceFile with
  | none => .ok (utf8 "<stdin>", around.input)
  | some path =>
    match around.content path with
    | .ok source => .ok (path, source)
    | .error fault => .error (.unreadableSource path fault)

/-- The program of a call, and the level to log at. -/
def Call.program (call : Call) (settings : Settings) (around : Surroundings) :
    Except Fault (Program × LogLevel) := do
  let (name, source) ← call.source around
  let level ← level settings
  match Program.parse name source with
  | .ok program => return (program, level)
  | .error error => throw (.rejected error)

/-- Compiles a program and shows its value, after the instructions if `trace` asks for them. -/
def compileOutcome (program : Program) (trace : Bool) (settings : Settings) (level : LogLevel) : Outcome :=
  let compiled := program.compile
  let lines := Lines.ofSource program.file program.source
  { out := (if trace then compiled.trace.disassemble else []) ++ compiled.value.text ++ utf8 "\n"
    err := if level.shows .debug then
        (Program.fullLog compiled settings.trace).flatMap (·.line lines)
      else [] }

/-- A call as far as it goes without a dialogue. -/
inductive Job where
  | finished (outcome : Outcome)
  | dialogue (settings : Settings) (level : LogLevel)

/-- Explains what the operands of a call for help name. -/
def explain (operands : List Bytes) : Outcome :=
  match findVerb operands with
  | .ok (some verb, _) => { out := verb.helpText }
  | .ok (none, _) => { out := programHelp [.config, .help, .logLevel] }
  | .error _ =>
    let topic := Bytes.join (utf8 " ") (operands.map Quoted.backquoted)
    { err := utf8 "Unknown help topic [" ++ topic ++ utf8 "]\n" ++ programUsage Flag.shared }

/-- Does what the verb asks for. -/
def Call.perform (call : Call) (verb : Verb) (around : Surroundings) : Except Fault Job := do
  call.checkOperands
  let settings ← call.settings around
  let around := call.afterSettings around
  match verb with
  | .repl => return .dialogue settings (← level settings)
  | .help => return .finished (explain call.operands)
  | .parse =>
    let (program, _) ← call.program settings around
    return .finished { out := program.tree.dump (call.options.indent.getD settings.indent) }
  | .format =>
    let (program, _) ← call.program settings around
    return .finished { out := program.tree.format }
  | .compile =>
    let (program, level) ← call.program settings around
    return .finished (compileOutcome program (call.options.trace.getD settings.trace) settings level)

/-- Offers ways to go on with the last word of a call. The usual settings have to be in order. -/
def offerOutcome (described : Bool) (words : List Bytes) (around : Surroundings) : Except Fault Outcome := do
  if words.isEmpty then throw .nothingToComplete
  let _ ← ({ verb := none, options := {}, operands := [] } : Call).settings around
  let offer := Offer.ofWords words
  return { out := offer.text described, err := offer.remarks }

/-- Starts a call. -/
def start (arguments : List Bytes) (around : Surroundings) : Job :=
  let job : Except Fault Job := do
    if let some (described, words) := Offer.request? arguments then
      return .finished (← offerOutcome described words around)
    let call ← Call.ofArguments arguments
    if call.options.help then return .finished { out := helpText call.verb }
    else
      match call.verb with
      | none => return .finished { out := if call.options.version then versionText else helpText none }
      | some verb => call.perform verb around
  match job with
  | .ok job => job
  | .error fault => .finished (.ofFault fault)

/-- Where the history of a dialogue is kept. -/
def historyPath (settings : Settings) (around : Surroundings) : Bytes :=
  settings.historyFile.getD around.historyFile

/-- How a dialogue begins. -/
def opening (settings : Settings) (around : Surroundings) : Dialogue :=
  { session := { showTrace := settings.trace }
    history := match around.read (historyPath settings around) with
      | .ok content => .ofFile content
      | .error _ => {} }

/-- The file with the history after a dialogue; the empty path is no file. -/
def savedHistory (settings : Settings) (around : Surroundings) (history : History) :
    Option (Bytes × Bytes) :=
  let path := historyPath settings around
  if path.isEmpty then none else some (path, history.toFile)

/-- Holds a dialogue over the whole input. -/
def converse (settings : Settings) (level : LogLevel) (around : Surroundings) : Outcome :=
  let first := opening settings around
  if Dialogue.isPrompt settings.prompt then
    let transcript := first.hold settings.prompt ((InputLine.all around.input).map (·.text))
    { out := Dialogue.banner ++ transcript.out
      err := if level.shows .debug then transcript.log else []
      saved := savedHistory settings around transcript.history }
  else
    { Outcome.ofFault .invalidPrompt with
      out := Dialogue.banner
      saved := savedHistory settings around first.history }

/-- What is around a dialogue that the arguments lead to. -/
def dialogueSurroundings (arguments : List Bytes) (around : Surroundings) : Surroundings :=
  match Call.ofArguments arguments with
  | .ok call => call.afterSettings around
  | .error _ => around

/-- Carries out a call. -/
def run (arguments : List Bytes) (around : Surroundings) : Outcome :=
  match start arguments around with
  | .finished outcome => outcome
  | .dialogue settings level => converse settings level (dialogueSurroundings arguments around)

end EcmaFold.CommandLine
