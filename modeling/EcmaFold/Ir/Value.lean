import EcmaFold.Double.Text
import EcmaFold.Text.Quoted

/-!
What lowering gives: a constant, or a placeholder for what is not lowered, so that lowering always gives
a value.
-/

namespace EcmaFold

/-- A constant or a placeholder. -/
inductive Value where
  /-- No value. -/
  | void
  | int (value : Int64)
  | float (value : Float)
  | bool (value : Bool)
  | null
  | string (text : Bytes)
  /-- A construct that is recognised but not lowered. -/
  | unsupported (construct : Bytes)
  /-- A statement that would need basic blocks. -/
  | controlFlow (construct : Bytes)
  /-- A function declaration. -/
  | function (name : Bytes)

namespace Value

/-- What a value holds. -/
inductive Kind where
  | void | int | float | bool | null | string | unsupported | controlFlow | function
  deriving DecidableEq, Repr

/-- The type of a constant. -/
inductive Ty where
  | i1 | i64 | double | ptr | str
  deriving DecidableEq, Repr

namespace Kind

/-- The kinds in the order of their numbers. -/
def all : List Kind := [void, int, float, bool, null, string, unsupported, controlFlow, function]

def text : Kind → Bytes
  | void => utf8 "void"
  | int => utf8 "int"
  | float => utf8 "float"
  | bool => utf8 "bool"
  | null => utf8 "null"
  | string => utf8 "string"
  | unsupported => utf8 "unsupported"
  | controlFlow => utf8 "controlflow"
  | function => utf8 "function"

/-- The name of the kind with a number. -/
def nameOf (number : Nat) : Bytes := (all[number]?.map text).getD (utf8 "unknown")

end Kind

namespace Ty

/-- The types in the order of their numbers, which start at one. -/
def all : List Ty := [i1, i64, double, ptr, str]

def text : Ty → Bytes
  | i1 => utf8 "i1"
  | i64 => utf8 "i64"
  | double => utf8 "double"
  | ptr => utf8 "ptr"
  | str => utf8 "str"

/-- The name of a type that may be missing. -/
def textOf : Option Ty → Bytes
  | some ty => ty.text
  | none => utf8 "none"

/-- The name of the type with a number; zero is the missing type. -/
def nameOf (number : Nat) : Bytes :=
  match number with
  | 0 => textOf none
  | index + 1 => textOf all[index]?

end Ty

def kind : Value → Kind
  | void => .void
  | int _ => .int
  | float _ => .float
  | bool _ => .bool
  | null => .null
  | string _ => .string
  | unsupported _ => .unsupported
  | controlFlow _ => .controlFlow
  | function _ => .function

/-- The type of a constant; placeholders have none. -/
def type? : Value → Option Ty
  | int _ => some .i64
  | float _ => some .double
  | bool _ => some .i1
  | null => some .ptr
  | string _ => some .str
  | _ => none

def isConst (v : Value) : Bool := v.type?.isSome

def isNumeric : Value → Bool
  | int _ | float _ => true
  | _ => false

def isUnsupported : Value → Bool
  | unsupported _ => true
  | _ => false

/-- The integer that a value is stored as; a boolean is one or zero. -/
def toInt : Value → Int64
  | int i => i
  | bool b => if b then 1 else 0
  | _ => 0

/-- The double that a value is stored as. -/
def toFloat : Value → Float
  | float f => f
  | _ => 0

/-- The boolean that a value is stored as. -/
def toBool (v : Value) : Bool := v.toInt ≠ 0

/-- The text of a string constant. -/
def toText : Value → Bytes
  | string text => text
  | _ => []

/-- What a placeholder stands for. -/
def construct : Value → Bytes
  | unsupported construct | controlFlow construct => construct
  | function name => name
  | _ => []

/-- A number as a double. -/
def asFloat : Value → Float
  | int i => Float.ofInt i.toInt
  | v => v.toFloat

/-- Whether a constant counts as true: zero, NaN, false, null and the empty text do not. -/
def truthy? : Value → Option Bool
  | int i => some (i ≠ 0)
  | float f => some (f != 0 && !f.isNaN)
  | bool b => some b
  | null => some false
  | string text => some !text.isEmpty
  | _ => none

/-- What `typeof` gives for a constant. -/
def typeOf? : Value → Option Bytes
  | int _ | float _ => some (utf8 "number")
  | bool _ => some (utf8 "boolean")
  | string _ => some (utf8 "string")
  | null => some (utf8 "object")
  | _ => none

/-- A value as it is shown. -/
def text : Value → Bytes
  | void => utf8 "void"
  | int i => utf8 "i64 " ++ Bytes.ofInt i.toInt
  | float f => utf8 "double " ++ Double.text f
  | bool b => utf8 "i1 " ++ Bytes.ofBool b
  | null => utf8 "ptr null"
  | string text => utf8 "str " ++ Quoted.debug text
  | unsupported construct => utf8 "unsupported(" ++ construct ++ utf8 ")"
  | controlFlow construct => utf8 "controlflow(" ++ construct ++ utf8 ")"
  | function name => utf8 "function(" ++ name ++ utf8 ")"

end Value

end EcmaFold
