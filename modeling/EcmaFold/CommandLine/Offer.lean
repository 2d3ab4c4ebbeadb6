import EcmaFold.CommandLine.Arguments

/-!
What a shell is told about a call that is still being typed: how its last word can go on.
-/

namespace EcmaFold.CommandLine

/-- Ways to go on with a word. -/
structure Offer where
  /-- Words to choose from, with what they mean. -/
  choices : List (Bytes × Bytes) := []
  /-- Whether names of files are ways to go on, too. -/
  filesToo : Bool := true
  /-- Why nothing can be said. -/
  complaint : Option Bytes := none

namespace Offer

/-- The words that ask for an offer, and whether the meanings are wanted. -/
def requests : List (Bytes × Bool) := [(utf8 "__complete", true), (utf8 "__completeNoDesc", false)]

/-- The words of the call to be completed, if that is what is asked for, and whether their meanings are
wanted. -/
def request? (arguments : List Bytes) : Option (Bool × List Bytes) := do
  let word ← firstWord? arguments
  let described ← requests.lookup word
  return (described, arguments.erase word)

/-- Whether a word is taken for a flag. -/
def isFlag (word : Bytes) : Bool :=
  match word with
  | first :: second :: rest => if second = 0x2D then !rest.isEmpty else first = 0x2D
  | _ => false

/-- The word that names a flag without its dashes; of a group of letters, the last. -/
def flagName (word : Bytes) : Bytes :=
  if (utf8 "--").isPrefixOf word then word.drop 2 else word.drop (word.length - 1)

/-- The flag of a verb under a name; nothing has a letter here. -/
def flag? (verb : Option Verb) (name : Bytes) : Option Flag :=
  (Flag.shared ++ (verb.map Flag.own).getD []).find? fun flag => flag.name = name

/-- Where the last word of a call stands, with the arguments before it. -/
inductive Spot where
  /-- It is the value of a flag, and the flag is not among the arguments. -/
  | value (before : List Bytes)
  /-- It is a word of its own. -/
  | word (word : Bytes) (before : List Bytes)

/-- Where a word stands that is not the beginning of a flag: behind a flag that needs a value, or by
itself. An unknown flag is an error. -/
def spotBehind (verb : Option Verb) (before : List Bytes) (word : Bytes) : Except Bytes Spot :=
  match before.getLast? with
  | none => .ok (.word word before)
  | some last =>
    if !isFlag last || last.contains 0x3D then .ok (.word word before)
    else
      match flag? verb (flagName last) with
      | some flag => .ok (if flag.isSwitch then .word word before else .value before.dropLast)
      | none => .error (flagName last)

/-- Where a word stands. A value may follow a flag and `=` in the same word. -/
def spot (verb : Option Verb) (before : List Bytes) (word : Bytes) : Except Bytes Spot :=
  if !isDashed word then spotBehind verb before word
  else if !word.contains 0x3D then .ok (.word word before)
  else
    let head := word.takeWhile (· ≠ 0x3D)
    if (flagName head).isEmpty then spotBehind verb before (word.drop (head.length + 1))
    else
      match flag? verb (flagName head) with
      | some _ => .ok (.value before)
      | none => .error (flagName head)

/-- The verbs that begin with a word. -/
def verbs (word : Bytes) : List (Bytes × Bytes) :=
  (Verb.sorted.filter fun verb => word.isPrefixOf verb.name).map fun verb => (verb.name, verb.summary)

/-- The flags that begin with a word and are not given yet. -/
def flags (word : Bytes) (call : Call) : List (Bytes × Bytes) :=
  let flags := (Flag.shared ++ (call.verb.map Flag.own).getD []).filter fun flag =>
    !call.options.has flag && word.isPrefixOf flag.label
  flags.map fun flag => (flag.label, flag.purpose programName)

/-- The ways to go on with a word behind a call. -/
def afterCall (word : Bytes) (call : Call) : Offer :=
  if isDashed word && !word.contains 0x3D then { choices := flags word call, filesToo := false }
  else
    match call.verb with
    | none => if call.operands.isEmpty then { choices := verbs word, filesToo := false } else {}
    | some .help =>
      { choices := match findVerb call.operands with
          | .ok (none, _) => verbs word
          | .ok (some _, _) | .error _ => []
        filesToo := false }
    | some .parse | some .format | some .compile | some .repl => {}

/-- Words between brackets. -/
def listed (words : List Bytes) : Bytes := utf8 "[" ++ Bytes.join (utf8 " ") words ++ utf8 "]"

/-- The offer that follows from the arguments before a word. -/
def ofArguments (verb : Option Verb) (before : List Bytes) (offer : Call → Offer) : Offer :=
  match readArguments before ⟨verb, {}, []⟩ with
  | .error fault =>
    { complaint :=
        utf8 "Error while parsing flags from args " ++ listed before ++ utf8 ": " ++ fault.message }
  | .ok call => offer call

/-- The ways to go on with the last word of a call. -/
def ofWords (words : List Bytes) : Offer :=
  match findVerb words.dropLast with
  | .error _ =>
    { complaint := utf8 "Unable to find a command for arguments: " ++ listed words.dropLast }
  | .ok (verb, before) =>
    match spot verb before (words.getLastD []) with
    | .error name =>
      let subject := (verb.map Verb.name).getD programName
      { complaint := utf8 "Subcommand '" ++ subject ++ utf8 "' does not support flag '" ++ name ++ utf8 "'" }
    | .ok (.value before) => ofArguments verb before fun _ => {}
    | .ok (.word word before) => ofArguments verb before (afterCall word)

/-- The offer as it is printed for the shell, the last line telling whether names of files count. -/
def text (offer : Offer) (described : Bool) : Bytes :=
  (offer.choices.flatMap fun (word, meaning) =>
    (if described then word ++ utf8 "\t" ++ meaning else word) ++ utf8 "\n") ++
  (if offer.filesToo then utf8 ":0\n" else utf8 ":4\n")

/-- What is printed about an offer for whoever looks at it. -/
def remarks (offer : Offer) : Bytes :=
  ((offer.complaint.map fun complaint => utf8 "[Debug] [Error] " ++ complaint ++ utf8 "\n").getD []) ++
  utf8 "Completion ended with directive: " ++
  (if offer.filesToo then utf8 "ShellCompDirectiveDefault\n" else utf8 "ShellCompDirectiveNoFileComp\n")

end Offer

end EcmaFold.CommandLine
