import EcmaFold.CommandLine.Verb
import EcmaFold.Text.Utf8

/-!
Verbs that may be meant by a word that names none.
-/

namespace EcmaFold.CommandLine

/-- Whether at most `budget` bytes have to be inserted, deleted or replaced to get from one text to the
other. Equal first bytes are kept, since nothing is gained by changing one of them. -/
def isNear : (budget : Nat) → Bytes → Bytes → Bool
  | budget, [], text | budget, text, [] => text.length ≤ budget
  | budget, a :: s, b :: t =>
    if a = b then isNear budget s t
    else
      match budget with
      | 0 => false
      | budget + 1 => isNear budget s t || isNear budget (a :: s) t || isNear budget s (b :: t)
termination_by _ s t => s.length + t.length

/-- A text with its letters in lower case. -/
def inLowerCase (text : Bytes) : Bytes :=
  (Utf8.chars text).flatMap fun c => Utf8.encode (Utf8.lowered c)

/-- The most changes between a word and the verb that may be meant. -/
def mostChanges : Nat := 2

/-- Whether a word is the beginning of the verb's name or nearly the name, in any case. -/
def Verb.mayBe (word : Bytes) (verb : Verb) : Bool :=
  let word := inLowerCase word
  isNear mostChanges word verb.name || word.isPrefixOf verb.name

/-- The verbs that may be meant by a word. Nobody is sent to the help. -/
def Verb.meantBy (word : Bytes) : List Verb :=
  [.parse, .format, .compile, .repl].filter (Verb.mayBe word)

/-- What is said after a word that names no verb. -/
def suggestions (word : Bytes) : Bytes :=
  match Verb.meantBy word with
  | [] => []
  | verbs => utf8 "\n\nDid you mean this?\n" ++ verbs.flatMap fun verb => utf8 "\t" ++ verb.name ++ utf8 "\n"

end EcmaFold.CommandLine
