import EcmaFold.Text.Bytes

/-!
When a dialogue asks for another line: some bracket or block comment of the source is still open.
Strings and comments are passed over by a rule of their own that looks at single bytes. A string ends at
its quote or at the end of a line, and a line ends at a line feed.
-/

namespace EcmaFold.Unclosed

/-- What the next byte belongs to. -/
inductive Place where
  | code
  | string (quote : UInt8)
  | lineComment
  | blockComment

/-- What a byte of code adds to the number of open brackets. -/
def bracket (b : UInt8) : Int :=
  if b = 0x28 ∨ b = 0x5B ∨ b = 0x7B then 1 else if b = 0x29 ∨ b = 0x5D ∨ b = 0x7D then -1 else 0

def isQuote (b : UInt8) : Bool := b = 0x22 || b = 0x27

/-- Whether something is open at the end, with `depth` brackets open so far. A closing bracket closes
whatever is open, and one too many counts against a later opening one. -/
def scan : Place → (depth : Int) → Bytes → Bool
  | .blockComment, _, [] => true
  | _, depth, [] => 0 < depth
  | .blockComment, depth, 0x2A :: 0x2F :: rest => scan .code depth rest
  | .blockComment, depth, _ :: rest => scan .blockComment depth rest
  | .lineComment, depth, b :: rest => scan (if b = 0x0A then .code else .lineComment) depth rest
  | .string quote, depth, 0x5C :: _ :: rest => scan (.string quote) depth rest
  | .string quote, depth, b :: rest =>
    scan (if b = quote ∨ b = 0x0A then .code else .string quote) depth rest
  | .code, depth, 0x2F :: 0x2F :: rest => scan .lineComment depth rest
  | .code, depth, 0x2F :: 0x2A :: rest => scan .blockComment depth rest
  | .code, depth, b :: rest =>
    if isQuote b then scan (.string b) depth rest else scan .code (depth + bracket b) rest

/-- A byte of code that opens neither a string nor a comment. -/
theorem scan_code {b : UInt8} {rest : Bytes} (depth : Int) (noQuote : isQuote b = false)
    (noComment : b = 0x2F → ∀ next ∈ rest.head?, next ≠ 0x2F ∧ next ≠ 0x2A) :
    scan .code depth (b :: rest) = scan .code (depth + bracket b) rest := by
  rw [scan]
  · rw [noQuote]
    rfl
  · rintro tail rfl rfl
    exact (noComment rfl _ rfl).1 rfl
  · rintro tail rfl rfl
    exact (noComment rfl _ rfl).2 rfl

/-- Whether a source has an open bracket or block comment. -/
def isUnclosed (source : Bytes) : Bool := scan .code 0 source

end EcmaFold.Unclosed
