import EcmaFold.CommandLine.Fault

/-!
Reading the arguments of a call: which verb is meant, what its flags say, and what is left over.
-/

namespace EcmaFold.CommandLine

/-- What flags say; the last word on a flag counts. -/
structure Options where
  /-- The path of the settings file, none or empty for the usual one. -/
  config : Option Bytes := none
  logLevel : Option Bytes := none
  indent : Option Int := none
  trace : Option Bool := none
  version : Bool := false
  help : Bool := false

/-- A call of the program. -/
structure Call where
  verb : Option Verb
  options : Options
  /-- The arguments that are no flags. -/
  operands : List Bytes

def isDashed (argument : Bytes) : Bool := argument.head? = some 0x2D

/-- Whether an argument looks like a flag whose value is the next argument: `--name`, or a single
letter, without `=`. -/
def wantsValue (argument : Bytes) : Bool :=
  ((utf8 "--").isPrefixOf argument || (isDashed argument && argument.length = 2)) &&
    (0x3D : UInt8) ∉ argument

/-- The argument that should name the verb: the first that is neither a flag nor looks like the value of
one. A flag that would leave only its value behind ends the search. -/
def firstWord? : List Bytes → Option Bytes
  | [] => none
  | argument :: rest =>
    if argument = utf8 "--" then none
    else if wantsValue argument then
      match rest with
      | _ :: next :: rest => firstWord? (next :: rest)
      | _ => none
    else if argument.isEmpty ∨ isDashed argument then firstWord? rest
    else some argument

/-- The verb of a call, and the other arguments. -/
def findVerb (arguments : List Bytes) : Except Fault (Option Verb × List Bytes) :=
  match firstWord? arguments with
  | none => .ok (none, arguments)
  | some word =>
    match Verb.ofName? word with
    | some verb => .ok (some verb, arguments.erase word)
    | none => .error (.unknownVerb word)

/-- The value of a switch. -/
def switchValue? (value : Bytes) : Option Bool :=
  if (["1", "t", "T", "true", "TRUE", "True"].map utf8).contains value then some true
  else if (["0", "f", "F", "false", "FALSE", "False"].map utf8).contains value then some false
  else none

/-- Whether a flag was given. -/
def Options.has (options : Options) : Flag → Bool
  | .config => options.config.isSome
  | .logLevel => options.logLevel.isSome
  | .indent => options.indent.isSome
  | .trace => options.trace.isSome
  | .version => options.version
  | .help => options.help

/-- Sets a flag. -/
def Options.set (options : Options) (flag : Flag) (value : Bytes) : Except Fault Options :=
  let switched (update : Bool → Options) : Except Fault Options :=
    match switchValue? value with
    | some on => .ok (update on)
    | none => .error (.unsuitable flag value .notBool)
  match flag with
  | .config => .ok { options with config := some value }
  | .logLevel => .ok { options with logLevel := some value }
  | .indent =>
    match Integer.read value with
    | .ok n => .ok { options with indent := some n }
    | .error fault => .error (.unsuitable flag value (.notInteger fault))
  | .trace => switched fun on => { options with trace := some on }
  | .version => switched fun on => { options with version := on }
  | .help => switched fun on => { options with help := on }

/-- The beginning of a group that means nothing to the program. -/
def ignoredGroup : Bytes := utf8 "test."

/-- Sets the switches of a group of letters, as in `-hv`. A value may follow a letter and `=`. From
`test.` on, a group is left to whoever runs the program as a test. -/
def setLetters (verb : Option Verb) : (group : Bytes) → Options → Except Fault Options
  | [], options => .ok options
  | letter :: rest, options =>
    if ignoredGroup.isPrefixOf (letter :: rest) then .ok options
    else
      match Flag.all.find? fun flag => flag.known verb && flag.letter? = some letter with
      | none => .error (.unknownLetter letter (letter :: rest))
      | some flag =>
        match rest with
        | 0x3D :: value :: more => options.set flag (value :: more)
        | _ => do setLetters verb rest (← options.set flag (utf8 "true"))

/-- A call with a flag of it set. -/
def Call.withOptions (call : Call) (options : Except Fault Options) : Except Fault Call :=
  options.map fun options => { call with options }

/-- Takes in the arguments one by one. After `--` there are no flags. -/
def readArguments : List Bytes → Call → Except Fault Call
  | [], call => .ok call
  | argument :: rest, call =>
    if !isDashed argument ∨ argument.length = 1 then
      readArguments rest { call with operands := call.operands ++ [argument] }
    else if argument = utf8 "--" then .ok { call with operands := call.operands ++ rest }
    else if (utf8 "--").isPrefixOf argument then
      let body := argument.drop 2
      let name := body.takeWhile (· ≠ 0x3D)
      if name.isEmpty ∨ isDashed name then .error (.malformedFlag argument)
      else
        match Flag.all.find? fun flag => flag.known call.verb && flag.name = name with
        | none => .error (.unknownFlag name)
        | some flag =>
          if name.length < body.length then do
            readArguments rest (← call.withOptions (call.options.set flag (body.drop (name.length + 1))))
          else if flag.isSwitch then do
            readArguments rest (← call.withOptions (call.options.set flag (utf8 "true")))
          else
            match rest with
            | [] => .error (.missingValue argument)
            | value :: rest => do
              readArguments rest (← call.withOptions (call.options.set flag value))
    else do
      readArguments rest (← call.withOptions (setLetters call.verb (argument.drop 1) call.options))

/-- Reads the arguments of a call. -/
def Call.ofArguments (arguments : List Bytes) : Except Fault Call := do
  let (verb, rest) ← findVerb arguments
  readArguments rest ⟨verb, {}, []⟩

/-- Whether a verb takes the operands. -/
def Call.checkOperands (call : Call) : Except Fault Unit :=
  match call.verb, call.operands with
  | some .repl, operand :: _ => .error (.unwantedOperand .repl operand)
  | some .repl, [] | some .help, _ => .ok ()
  | _, operands => if 1 < operands.length then .error (.tooManyArguments operands.length) else .ok ()

end EcmaFold.CommandLine
