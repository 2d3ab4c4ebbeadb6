import EcmaFold.Token

/-!
Completing the word at the end of a line.
-/

namespace EcmaFold.Completion

/-- The words that begin with `start`, each behind `head`. A word equal to the one before it is passed
over; before the first stands `last`. -/
def extendingAfter (head start : Bytes) : (last : Bytes) → List Bytes → List Bytes
  | _, [] => []
  | last, word :: rest =>
    let more := extendingAfter head start word rest
    if word ≠ last ∧ start.isPrefixOf word then (head ++ word) :: more else more

/-- The words that begin with `start`, each behind `head`; repetitions and the empty word are left
out. -/
def extending (head start : Bytes) (words : List Bytes) : List Bytes :=
  extendingAfter head start [] words

/-- A byte of an ASCII word. -/
def isWordByte (b : UInt8) : Bool :=
  Bytes.isDigit b || (0x41 ≤ b && b ≤ 0x5A) || (0x61 ≤ b && b ≤ 0x7A) || b = 0x5F || b = 0x24

/-- The ASCII word that a line ends with and what stands before it. A word does not begin with a
digit. -/
def lastWord? (line : Bytes) : Option (Bytes × Bytes) :=
  let word := (line.reverse.takeWhile isWordByte).reverse.dropWhile Bytes.isDigit
  if word.isEmpty then none else some (line.take (line.length - word.length), word)

/-- Ways to go on with the last word of a line: a reserved word or one of the names. -/
def ofWords (names : List Bytes) (line : Bytes) : List Bytes :=
  match lastWord? line with
  | none => []
  | some (head, start) =>
    extending head start (Bytes.sortedSet (Word.all.map Word.spelling ++ names))

end EcmaFold.Completion
