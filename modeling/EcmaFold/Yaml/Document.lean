import EcmaFold.Yaml.Basic
import EcmaFold.Yaml.Scan

/-!
From tokens to the first document. What follows that document does not matter, as long as its
first tokens can be told.
-/

namespace EcmaFold.Yaml

/-- What is left to read, and what is known so far. -/
structure Reading where
  tokens : List Token
  /-- The indices that names stand for, the latest first. -/
  names : List (Bytes × Nat) := []
  /-- The values with a name whose end is reached. -/
  named : List (Nat × Yaml) := []
  /-- What the handles of tags abbreviate. -/
  handles : List (Bytes × Bytes) := []

/-- A step of reading that may fail. -/
abbrev Reader := StateT Reading Option

namespace Reader

/-- The next token, which stays. -/
def peek : Reader Token := do (← get).tokens.head?

/-- Passes over the next token. -/
def skip : Reader Unit := modify fun reading => { reading with tokens := reading.tokens.tail }

/-- Passes over the next token, which has to be this one. -/
def expect (token : Token) : Reader Unit := do
  guard ((← peek) = token)
  skip

/-- Passes over the next token if it is this one, and says whether it was. -/
def accept (token : Token) : Reader Bool := do
  if (← peek) = token then
    skip
    return true
  else return false

/-- Reads a value that may have a name. Inside it the name stands for it already. -/
def naming (name? : Option Bytes) (value : Reader Yaml) : Reader Yaml := do
  match name? with
  | none => value
  | some name =>
    let index := (← get).names.length
    modify fun reading => { reading with names := (name, index) :: reading.names }
    let value ← value
    modify fun reading => { reading with named := (index, value) :: reading.named }
    return value

/-- A mention of the value that has a name. -/
def mention (name : Bytes) : Reader Yaml := do
  match (← get).names.lookup name with
  | some index => return .mention name index
  | none => failure

/-- The usual beginning of a tag, and how it is written shortly. -/
def commonTags : Bytes × Bytes := (utf8 "tag:yaml.org,2002:", utf8 "!!")

/-- A tag in full, shortly written. A lone mark is no tag. -/
def tagOf (handle suffix : Bytes) : Reader (Option Bytes) := do
  let full ← if handle.isEmpty then pure suffix
    else match (← get).handles.lookup handle with
      | some expansion => pure (expansion ++ suffix)
      | none => failure
  if full = utf8 "!" then return none
  else if commonTags.1.isPrefixOf full then return some (commonTags.2 ++ full.drop commonTags.1.length)
  else return some full

/-- The anchor before a value. -/
def anchor? : Reader (Option Bytes) := do
  match ← peek with
  | .anchor name => skip; return some name
  | _ => return none

/-- The tag before a value. The outer option says whether there is one. -/
def tag? : Reader (Option (Option Bytes)) := do
  match ← peek with
  | .tag handle suffix => skip; return some (← tagOf handle suffix)
  | _ => return none

/-- An anchor and a tag in any order. -/
def properties : Reader (Option Bytes × Option (Option Bytes)) := do
  match ← anchor? with
  | some name => return (some name, ← tag?)
  | none =>
    let tag ← tag?
    if tag.isSome then return (← anchor?, tag) else return (none, none)

/-- A value of which nothing but an anchor or a tag is written. -/
def bare (name : Option Bytes) (tag : Option (Option Bytes)) : Reader Yaml :=
  if name.isSome || tag.isSome then pure (.scalar (tag.getD none) true []) else failure

def endsBlockEntry (token : Token) : Bool := [Token.key, .value, .blockEnd].contains token

def endsFlowItem (token : Token) : Bool := [Token.comma, .sequenceClose].contains token

def endsFlowEntry (token : Token) : Bool := [Token.comma, .mappingClose].contains token

mutual

/-- A value. Block collections are only allowed outside brackets, and `indentless` says whether dashes may
begin a sequence without indentation. -/
def node : (fuel : Nat) → (block indentless : Bool) → Reader Yaml
  | 0, _, _ => failure
  | fuel + 1, block, indentless => do
    match ← peek with
    | .mention name => skip; mention name
    | _ =>
      let (name, tag) ← properties
      naming name do match ← peek with
        | .scalar plain text => skip; pure (.scalar (tag.getD none) plain text)
        | .sequenceOpen => skip; Yaml.sequence <$> flowItems fuel true
        | .mappingOpen => skip; Yaml.mapping <$> flowEntries fuel true
        | .dash => if indentless then Yaml.sequence <$> indentlessItems fuel else bare name tag
        | .blockSequence =>
          if block then do skip; Yaml.sequence <$> blockItems fuel else bare name tag
        | .blockMapping =>
          if block then do skip; Yaml.mapping <$> blockEntries fuel else bare name tag
        | _ => bare name tag

/-- A value, or nothing before certain tokens. -/
def optional : (fuel : Nat) → (absent : Token → Bool) → (block : Bool) → Reader Yaml
  | 0, _, _ => failure
  | fuel + 1, absent, block => do
    if absent (← peek) then return empty else node fuel block block

/-- The items of an indented sequence up to its end. -/
def blockItems : (fuel : Nat) → Reader (List Yaml)
  | 0 => failure
  | fuel + 1 => do
    if ← accept .blockEnd then return []
    else
      expect .dash
      let next ← peek
      let item ← if next = .dash || next = .blockEnd then pure empty else node fuel true false
      return item :: (← blockItems fuel)

/-- The items of a sequence that is not indented; it ends without a token of its own. -/
def indentlessItems : (fuel : Nat) → Reader (List Yaml)
  | 0 => failure
  | fuel + 1 => do
    if ← accept .dash then
      let next ← peek
      let item ← if next = .dash || endsBlockEntry next then pure empty else node fuel true false
      return item :: (← indentlessItems fuel)
    else return []

/-- The entries of an indented mapping up to its end. -/
def blockEntries : (fuel : Nat) → Reader (List (Yaml × Yaml))
  | 0 => failure
  | fuel + 1 => do
    if ← accept .blockEnd then return []
    else
      expect .key
      let key ← optional fuel endsBlockEntry true
      let value ← if ← accept .value then optional fuel endsBlockEntry true else pure empty
      return (key, value) :: (← blockEntries fuel)

/-- The items of a sequence in brackets. An item with a key is a mapping of its own. -/
def flowItems : (fuel : Nat) → (first : Bool) → Reader (List Yaml)
  | 0, _ => failure
  | fuel + 1, first => do
    if ← accept .sequenceClose then return []
    else
      unless first do expect .comma
      if ← accept .sequenceClose then return []
      else
        let item ← if ← accept .key then Yaml.mapping <$> pair fuel else node fuel false false
        return item :: (← flowItems fuel false)

/-- The only entry of a mapping among the items of a sequence. Where the key is missing, the token that
shows it is passed over. -/
def pair : (fuel : Nat) → Reader (List (Yaml × Yaml))
  | 0 => failure
  | fuel + 1 => do
    let next ← peek
    let key ← if next = .value || endsFlowItem next then do skip; pure empty else node fuel false false
    let value ← if ← accept .value then optional fuel endsFlowItem false else pure empty
    return [(key, value)]

/-- The entries of a mapping in brackets. -/
def flowEntries : (fuel : Nat) → (first : Bool) → Reader (List (Yaml × Yaml))
  | 0, _ => failure
  | fuel + 1, first => do
    if ← accept .mappingClose then return []
    else
      unless first do expect .comma
      if ← accept .mappingClose then return []
      else
        let entry ← if ← accept .key then do
            let key ← optional fuel (fun token => token = .value || endsFlowEntry token) false
            let value ← if ← accept .value then optional fuel endsFlowEntry false else pure empty
            pure (key, value)
          else do pure (← node fuel false false, empty)
        return entry :: (← flowEntries fuel false)

end

/-- The directives before a document. -/
def directives : (fuel : Nat) → (versioned : Bool) → Reader Unit
  | 0, _ => failure
  | fuel + 1, versioned => do
    match ← peek with
    | .version major minor =>
      guard (!versioned && major = 1 && minor = 1)
      skip
      directives fuel true
    | .handle name expansion =>
      guard ((← get).handles.lookup name).isNone
      skip
      modify fun reading => { reading with handles := (name, expansion) :: reading.handles }
      directives fuel versioned
    | _ => pure ()

/-- What handles abbreviate if no directive says otherwise. -/
def usualHandles : List (Bytes × Bytes) := [(utf8 "!", utf8 "!"), (utf8 "!!", commonTags.1)]

/-- Whether a document ends before this token. -/
def endsDocument : Token → Bool
  | .version .. | .handle .. | .documentStart | .documentEnd | .ending => true
  | _ => false

/-- The root of the first document. Something has to follow it, and be it the end. -/
def document (fuel : Nat) : Reader Yaml := do
  if (← peek) = .ending then return empty
  else
    let marked := endsDocument (← peek) && (← peek) ≠ .documentEnd
    if marked then
      directives fuel false
      expect .documentStart
    modify fun reading => { reading with handles := reading.handles ++ usualHandles }
    let value ← if marked && endsDocument (← peek) then pure empty else node fuel true false
    discard peek
    return value

end Reader

/-- Reads the first document of a text. -/
def Document.parse? (text : Bytes) : Option Document := do
  let tokens := Token.scan (Content.ofBytes text)
  let (root, reading) ← Reader.document (4 * tokens.length + 8) |>.run { tokens }
  return { root, named := reading.named }

end EcmaFold.Yaml
