import EcmaFold.Lexer.Number
import EcmaFold.Text.Base64
import EcmaFold.Text.Integer
import EcmaFold.Text.Timestamp

/-!
What a scalar stands for. A plain scalar is read by its look; a quoted one is a text.
-/

namespace EcmaFold.Yaml

/-- What a scalar stands for. -/
inductive Meaning where
  | null
  | bool (value : Bool)
  | integer (value : Int)
  | float (value : Float)
  | text

namespace Meaning

/-- The words that stand for something. -/
def words : List (Bytes × Meaning) :=
  let group (meaning : Meaning) (spellings : List String) :=
    spellings.map fun spelling => (utf8 spelling, meaning)
  group null ["", "~", "null", "Null", "NULL"] ++
  group (bool true) ["true", "True", "TRUE"] ++
  group (bool false) ["false", "False", "FALSE"] ++
  group (float (0 / 0)) [".nan", ".NaN", ".NAN"] ++
  group (float (1 / 0)) [".inf", ".Inf", ".INF", "+.inf", "+.Inf", "+.INF"] ++
  group (float (-1 / 0)) ["-.inf", "-.Inf", "-.INF"]

/-- The number that a decimal spelling with a sign stands for. One too large stands for none. -/
def decimal? (text : Bytes) : Option Float :=
  let (negative, digits) := match text with
    | 0x2B :: rest => (false, rest)
    | 0x2D :: rest => (true, rest)
    | _ => (false, text)
  if digits.isEmpty ∨ Number.decimalWidth digits ≠ digits.length then none
  else
    let value := Number.decimalFloat digits
    if value.isInf then none else some (if negative then -value else value)

/-- An integer whose sign stands behind the marker of its base. -/
def innerSigned? : Bytes → Option Int
  | 0x30 :: 0x62 :: rest => (Integer.readIn 2 rest).toOption
  | 0x30 :: 0x6F :: rest => (Integer.readIn 8 rest).toOption
  | _ => none

/-- The number that a spelling from a digit or sign on stands for. Underscores do not count. -/
def number (spelling : Bytes) : Meaning :=
  let digits := spelling.filter (· ≠ 0x5F)
  match Integer.read digits, Integer.magnitude digits with
  | .ok value, _ => integer value
  | .error _, .ok value => integer value
  | .error _, .error _ =>
    match decimal? digits, innerSigned? digits with
    | some value, _ => float value
    | none, some value => integer value
    | none, none => text

/-- Whether each underscore stands between two digits; `digit` says whether one comes before. -/
def separates : (digit : Bool) → Bytes → Bool
  | _, [] => true
  | digit, 0x5F :: rest => digit && (rest.head?.map Bytes.isDigit).getD false && separates false rest
  | _, b :: rest => separates (Bytes.isDigit b) rest

/-- The number that a spelling from a point on stands for. -/
def fraction (spelling : Bytes) : Meaning :=
  if separates false spelling then ((decimal? (spelling.filter (· ≠ 0x5F))).map float).getD text else text

/-- What a plain scalar stands for. -/
def ofPlain (spelling : Bytes) : Meaning :=
  match words.lookup spelling, spelling with
  | some meaning, _ => meaning
  | none, 0x2E :: _ => fraction spelling
  | none, first :: _ =>
    if Bytes.isDigit first ∨ first = 0x2B ∨ first = 0x2D then number spelling else text
  | none, [] => text

/-- The tag of a meaning. -/
def tag : Meaning → Bytes
  | null => utf8 "!!null"
  | bool _ => utf8 "!!bool"
  | integer _ => utf8 "!!int"
  | float _ => utf8 "!!float"
  | text => utf8 "!!str"

/-- The tags that only fit some spellings. -/
def demanding : List Bytes := ["!!null", "!!bool", "!!int", "!!float"].map utf8

/-- What a scalar with a tag stands for. It must look as the tag demands, but an integer may be meant as a
decimal, and a date is left as a text. Other tags demand nothing and leave a text. -/
def ofTagged? (demanded : Bytes) (spelling : Bytes) : Option Meaning :=
  let meaning := ofPlain spelling
  if demanded = utf8 "!!timestamp" then if Timestamp.isTimestamp spelling then some text else none
  else if !demanding.contains demanded then some text
  else if meaning.tag = demanded then some meaning
  else match meaning with
    | integer value =>
      if demanded = utf8 "!!float" ∧ value < Integer.signedLimit then some (float (Float.ofInt value))
      else none
    | _ => none

/-- The text of a scalar and what it stands for. Only the tag for encoded bytes changes the text. -/
def ofScalar? (tag : Option Bytes) (plain : Bool) (spelling : Bytes) : Option (Bytes × Meaning) :=
  match tag with
  | none => some (spelling, if plain then ofPlain spelling else text)
  | some demanded =>
    if demanded = utf8 "!!binary" then (Base64.decode? spelling).map (·, text)
    else (ofTagged? demanded spelling).map (spelling, ·)

end Meaning

end EcmaFold.Yaml
