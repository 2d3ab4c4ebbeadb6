import EcmaFold.CommandLine.Suggestion
import EcmaFold.LogLevel
import EcmaFold.SyntaxError
import EcmaFold.Text.Integer

/-!
What can be wrong with a call of the program, and how it is reported.
-/

namespace EcmaFold.CommandLine

/-- Why a value does not suit a flag. -/
inductive ValueFault where
  | notInteger (fault : Integer.Fault)
  | notBool
  deriving DecidableEq, Repr

def ValueFault.message (value : Bytes) : ValueFault → Bytes
  | notInteger .invalid =>
    utf8 "strconv.ParseInt: parsing " ++ Quoted.debug value ++ utf8 ": invalid syntax"
  | notInteger .outOfRange =>
    utf8 "strconv.ParseInt: parsing " ++ Quoted.debug value ++ utf8 ": value out of range"
  | notBool => utf8 "strconv.ParseBool: parsing " ++ Quoted.debug value ++ utf8 ": invalid syntax"

/-- Why a file cannot be read. -/
inductive FileFault where
  | missing
  /-- A file stands where the path needs a directory. -/
  | notDirectory
  /-- The path leads to a directory. -/
  | isDirectory
  | nameTooLong
  | denied
  deriving DecidableEq, Repr

/-- What the system says about a path. That something is a directory shows only when it is read. -/
def FileFault.message (path : Bytes) : FileFault → Bytes
  | missing => utf8 "open " ++ path ++ utf8 ": no such file or directory"
  | notDirectory => utf8 "open " ++ path ++ utf8 ": not a directory"
  | isDirectory => utf8 "read " ++ path ++ utf8 ": is a directory"
  | nameTooLong => utf8 "open " ++ path ++ utf8 ": file name too long"
  | denied => utf8 "open " ++ path ++ utf8 ": permission denied"

/-- Why a call fails. -/
inductive Fault where
  /-- A word that names no verb. -/
  | unknownVerb (word : Bytes)
  /-- A verb that takes no operands has one. -/
  | unwantedOperand (verb : Verb) (operand : Bytes)
  | unknownFlag (name : Bytes)
  /-- The first letter of the group is no flag. -/
  | unknownLetter (letter : UInt8) (group : Bytes)
  | malformedFlag (argument : Bytes)
  | missingValue (argument : Bytes)
  | unsuitable (flag : Flag) (value : Bytes) (fault : ValueFault)
  | tooManyArguments (count : Nat)
  | nothingToComplete
  | unreadableSource (path : Bytes) (fault : FileFault)
  | unreadableSettings (path : Bytes) (fault : FileFault)
  | malformedSettings (path : Bytes)
  | unknownLevel (text : Bytes)
  | invalidPrompt
  | rejected (error : SyntaxError)

namespace Fault

/-- Says that a word is no command of what `under` names. -/
def noCommand (word under : Bytes) : Bytes :=
  utf8 "unknown command " ++ Quoted.debug word ++ utf8 " for " ++ Quoted.debug under

def message : Fault → Bytes
  | unknownVerb word => noCommand word programName ++ suggestions word
  | unwantedOperand verb operand => noCommand operand verb.path
  | unknownFlag name => utf8 "unknown flag: --" ++ name
  | unknownLetter letter group =>
    utf8 "unknown shorthand flag: " ++ Quoted.debugSingle (Char.ofUInt8 letter) ++ utf8 " in -" ++ group
  | malformedFlag argument => utf8 "bad flag syntax: " ++ argument
  | missingValue argument => utf8 "flag needs an argument: " ++ argument
  | unsuitable flag value fault =>
    utf8 "invalid argument " ++ Quoted.debug value ++ utf8 " for " ++ Quoted.debug flag.label ++
      utf8 " flag: " ++ fault.message value
  | tooManyArguments count => utf8 "accepts at most 1 arg(s), received " ++ Bytes.ofNat count
  | nothingToComplete => utf8 "requires at least 1 arg(s), only received 0"
  | unreadableSource path fault => utf8 "reading " ++ path ++ utf8 ": " ++ fault.message path
  | unreadableSettings path fault => utf8 "reading config " ++ path ++ utf8 ": " ++ fault.message path
  | malformedSettings path => utf8 "parsing config " ++ path
  | unknownLevel text => LogLevel.complaint text
  | invalidPrompt => utf8 "invalid prompt"
  | rejected error => error.message

/-- What is printed about a fault. A rejected source is shown with the place marked. -/
def report (fault : Fault) : Bytes :=
  programName ++ utf8 ": " ++ fault.message ++ utf8 "\n" ++
    match fault with
    | rejected error => error.context ++ utf8 "\n"
    | _ => []

def exitCode : Fault → UInt8
  | rejected _ => 2
  | _ => 1

end Fault

end EcmaFold.CommandLine
