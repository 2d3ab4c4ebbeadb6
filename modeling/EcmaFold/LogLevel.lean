import EcmaFold.Text.Quoted

/-!
Levels of the log. An entry is shown if its level is at least the chosen one.
-/

namespace EcmaFold

/-- How serious an entry is, from the least to the most. -/
inductive LogLevel where
  | debug
  | info
  | warn
  | error
  | dpanic
  | panic
  | fatal
  deriving DecidableEq, Repr

namespace LogLevel

/-- Every level, in order. -/
def all : List LogLevel := [debug, info, warn, error, dpanic, panic, fatal]

def name : LogLevel → String
  | debug => "debug"
  | info => "info"
  | warn => "warn"
  | error => "error"
  | dpanic => "dpanic"
  | panic => "panic"
  | fatal => "fatal"

def severity : LogLevel → Nat
  | debug => 0
  | info => 1
  | warn => 2
  | error => 3
  | dpanic => 4
  | panic => 5
  | fatal => 6

/-- Whether a log kept at `chosen` shows entries of level `entry`. -/
def shows (chosen entry : LogLevel) : Bool := chosen.severity ≤ entry.severity

/-- The level that a text names in any case. The empty text is `info`. -/
def ofText? (text : Bytes) : Option LogLevel :=
  if text.isEmpty then some info
  else all.find? fun level => level.name.toList = (Utf8.chars text).map Utf8.lowered

/-- What is wrong with a text that names no level. -/
def complaint (text : Bytes) : Bytes :=
  utf8 "invalid log level " ++ Quoted.debug text ++ utf8 ": unrecognized level: " ++ Quoted.debug text

end LogLevel

end EcmaFold
