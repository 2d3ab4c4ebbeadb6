import EcmaFold.Yaml.Basic
import EcmaFold.Yaml.Meaning

/-!
Looking at the values of a document. Every look is counted, because mentions of mentions can make much of
little: a document of which too much is seen through mentions is refused.
-/

namespace EcmaFold.Yaml

/-- How many looks were taken, and how many of them through mentions. -/
structure Looks where
  all : Nat := 0
  mentioned : Nat := 0

namespace Looks

/-- Whether too many looks went through mentions. Up to 400,000 looks 99 % may do so, from 4,000,000 on
10 %, and the bound falls evenly between; few looks are never too many. -/
def excessive (looks : Looks) : Bool :=
  100 < looks.mentioned && 1000 < looks.all &&
    if looks.all ≤ 400000 then 99 * looks.all < 100 * looks.mentioned
    else if 4000000 ≤ looks.all then looks.all < 10 * looks.mentioned
    else looks.all * (99 * 3600000 - 89 * (looks.all - 400000)) < 100 * 3600000 * looks.mentioned

end Looks

/-- A step of looking at a document. -/
abbrev Viewing := ReaderT Document (StateT Looks Option)

namespace Viewing

/-- Counts a look. -/
def count (mentioned : Bool) : Viewing Unit := do
  let looks ← get
  let looks := { all := looks.all + 1, mentioned := looks.mentioned + if mentioned then 1 else 0 : Looks }
  guard (!looks.excessive)
  set looks

/-- A value with the knowledge whether it is seen through a mention. -/
structure Sight where
  value : Yaml
  mentioned : Bool := false

/-- The value that a mention means. -/
def target? (index : Nat) : Viewing Yaml := do (← read).named.lookup index

/-- Looks at a value. A mention leads to the value that it means. -/
def look (sight : Sight) : Viewing Sight := do
  count sight.mentioned
  match sight.value with
  | .mention _ index =>
    let value ← target? index
    count true
    return { value, mentioned := true }
  | _ => return sight

/-- The text of a scalar and what it stands for. -/
def scalar (sight : Sight) : Viewing (Bytes × Meaning) := do
  match (← look sight).value with
  | .scalar tag plain text => Meaning.ofScalar? tag plain text
  | _ => failure

/-- The text that a value gives, none if it stands for nothing. -/
def text? (sight : Sight) : Viewing (Option Bytes) := do
  match ← scalar sight with
  | (_, .null) => return none
  | (text, _) => return some text

/-- A double cut to an integer of 64 bits, if it is not above them. One below them becomes the least. -/
def integerOfFloat? (f : Float) : Option Int :=
  if f < 9223372036854775808 then some f.toInt64.toInt
  else if f == 9223372036854775808 then some (-(Integer.signedLimit : Int))
  else none

/-- The integer of 64 bits that a value gives. -/
def integer? (sight : Sight) : Viewing (Option Int) := do
  match ← scalar sight with
  | (_, .null) => return none
  | (_, .integer value) => if value < Integer.signedLimit then return some value else failure
  | (_, .float value) => return some (← integerOfFloat? value)
  | (_, .bool _) | (_, .text) => failure

/-- The truth value that a text says in words. -/
def boolOfWord? (text : Bytes) : Option Bool :=
  if (["y", "Y", "yes", "Yes", "YES", "on", "On", "ON"].map utf8).contains text then some true
  else if (["n", "N", "no", "No", "NO", "off", "Off", "OFF"].map utf8).contains text then some false
  else none

/-- The truth value that a value gives. -/
def bool? (sight : Sight) : Viewing (Option Bool) := do
  match ← scalar sight with
  | (_, .null) => return none
  | (_, .bool value) => return some value
  | (text, .text) => return some (← boolOfWord? text)
  | (_, .integer _) | (_, .float _) => failure

/-- The mappings that a merge takes over, in order: one, or those in a sequence. Each may be mentioned. -/
def mergeSources (value : Yaml) : Viewing (List Yaml) := do
  let sources ← match value with
    | .sequence items => pure items
    | _ => pure [value]
  for source in sources do
    let seen ← match source with
      | .mention _ index => target? index
      | _ => pure source
    match seen with
    | .mapping _ => pure ()
    | _ => failure
  return sources

end Viewing

end EcmaFold.Yaml
