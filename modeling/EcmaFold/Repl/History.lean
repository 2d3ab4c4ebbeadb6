import EcmaFold.Repl.InputLine
import EcmaFold.Text.Utf8

/-!
The history of a dialogue: the sources evaluated, oldest first, kept in a file between dialogues.
-/

namespace EcmaFold

/-- Entries, oldest first. -/
structure History where
  entries : List Bytes := []

namespace History

/-- The most entries that are kept. -/
def limit : Nat := 1000

/-- Adds an entry; the oldest makes room if there are too many. -/
def push (history : History) (entry : Bytes) : History :=
  let entries := history.entries ++ [entry]
  ⟨entries.drop (entries.length - limit)⟩

/-- Adds a source unless it repeats the last entry. -/
def record (history : History) (source : Bytes) : History :=
  if history.entries.getLast? = some source then history else history.push source

/-- Whether a line of a file is an entry. -/
def isEntry (line : InputLine) : Bool := !line.cut && Utf8.isValid line.text

/-- Reads a file, an entry on each line, up to the first line that is none. -/
def ofFile (content : Bytes) : History :=
  ((InputLine.all content).takeWhile isEntry).foldl (fun history line => history.push line.text) {}

/-- The content of the file. -/
def toFile (history : History) : Bytes := history.entries.flatMap (· ++ [0x0A])

end History

end EcmaFold
