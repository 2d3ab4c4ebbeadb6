import EcmaFold.Text.Bytes

/-!
The values that a YAML document is made of.
-/

namespace EcmaFold

/-- A value of a document. -/
inductive Yaml where
  /-- A plain scalar may stand for nothing, a truth value or a number. A tag demands what it stands for. -/
  | scalar (tag : Option Bytes) (plain : Bool) (text : Bytes)
  | sequence (items : List Yaml)
  | mapping (entries : List (Yaml × Yaml))
  /-- Another mention of a value with a name, which has this index in the document. -/
  | mention (name : Bytes) (index : Nat)

namespace Yaml

/-- What stands where nothing is written. -/
def empty : Yaml := scalar none true []

/-- Whether two keys are written alike. Collections are not told apart. -/
def alike : Yaml → Yaml → Bool
  | scalar _ _ a, scalar _ _ b => a = b
  | mention a _, mention b _ => a = b
  | sequence _, sequence _ | mapping _, mapping _ => true
  | _, _ => false

/-- Whether no two keys are written alike. -/
def unlike : List Yaml → Bool
  | [] => true
  | key :: keys => !keys.any key.alike && unlike keys

/-- Whether a key says that the entries of other mappings are taken over too. -/
def isMerge : Yaml → Bool
  | scalar tag plain text =>
    text = utf8 "<<" && (tag = some (utf8 "!!merge") || (tag.isNone && plain))
  | _ => false

/-- A value with all values that have a name. A value may mention one that it is part of. -/
structure Document where
  root : Yaml
  named : List (Nat × Yaml) := []

end Yaml

end EcmaFold
