import EcmaFold.Yaml.Scalar

/-!
The tokens of a document. Indentation is made explicit: a block collection has a token where it begins and
one where it ends, and every key has a token before it.
-/

namespace EcmaFold.Yaml

inductive Token where
  /-- The version of the language, two numbers. -/
  | version (major minor : Nat)
  /-- A handle with the text that it abbreviates in tags. -/
  | handle (name expansion : Bytes)
  | documentStart
  | documentEnd
  | blockSequence
  | blockMapping
  | blockEnd
  | sequenceOpen
  | sequenceClose
  | mappingOpen
  | mappingClose
  | comma
  | dash
  | key
  | value
  | mention (name : Bytes)
  | anchor (name : Bytes)
  | tag (handle suffix : Bytes)
  | scalar (plain : Bool) (text : Bytes)
  /-- The end of the text. -/
  | ending
  deriving DecidableEq, Repr

end EcmaFold.Yaml
