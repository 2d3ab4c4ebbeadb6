import EcmaFold.Text.Quoted
import EcmaFold.Tree.Walk

/-!
Trees as indented S-expressions, one line for each node. A node that adds nothing to the one it wraps
is shown as that one. The text comes as the list of writes that produce it, so that it can also be
sent to a sink that fills up.
-/

namespace EcmaFold

namespace Dump

/-- A node's text, split into writes, with the label that stands before it on its line. -/
structure Entry where
  label : Bytes
  writes : List Bytes

/-- Entries under another label. -/
def relabel (label : Bytes) (entries : List Entry) : List Entry :=
  entries.map fun entry => { entry with label }

/-- A new line `depth` steps deep, the label and the text. -/
def line (base : Bytes) (depth : Nat) (entry : Entry) : List Bytes :=
  (utf8 "\n" ++ base ++ Bytes.spaces (2 * depth) ++ entry.label) :: entry.writes

/-- A node with attributes on its own line and its parts on lines below. -/
def form (base : Bytes) (depth : Nat) (name : String) (attributes : List Bytes)
    (parts : List Entry) : List Entry :=
  [⟨[], (utf8 "(" ++ utf8 name) :: attributes.map (utf8 " " ++ ·) ++
    parts.flatMap (line base (depth + 1)) ++ [utf8 ")"]⟩]

/-- Moves every label to the entry after it, where the operator of an assignment is shown. -/
def shiftLabels : (label : Bytes) → List Entry → List Entry
  | _, [] => []
  | label, first :: rest => { first with label } :: shiftLabels first.label rest

/-- Parameter names in parentheses. -/
def params (names : List Bytes) : Bytes := utf8 "(" ++ Bytes.join (utf8 " ") names ++ utf8 ")"

def tierName : Tier → String
  | .logicalOr => "LogicalOr"
  | .logicalAnd => "LogicalAnd"
  | .bitOr => "BitOr"
  | .bitXor => "BitXor"
  | .bitAnd => "BitAnd"
  | .equality => "Equality"
  | .relational => "Relational"
  | .shift => "Shift"
  | .additive => "Additive"
  | .multiplicative => "Multiplicative"

def numeralKind : Numeral → Bytes
  | .int _ => Numeral.kindName 0
  | .float _ => Numeral.kindName 1

end Dump

namespace Tree

open Dump

/-- The entries of the nodes of a tree that stands `depth` steps deep in a dump whose lines begin with
`base`: one for a node, and one for each node of a list. The label of an operation is its operator;
that of a target is the operator after it. -/
def dumpEntries (base : Bytes) : {shape : Shape} → Tree shape → (depth : Nat) → List Entry
  | _, nil, _ => []
  | _, cons node rest, d => node.dumpEntries base d ++ rest.dumpEntries base d
  | _, absent, _ => []
  | _, present node, d => node.dumpEntries base d
  | _, program _ elements, d => form base d "Program" [] (elements.dumpEntries base (d + 1))
  | _, funcDecl _ name names body, d =>
    form base d "FuncDecl" [name, params names] (body.dumpEntries base (d + 1))
  | _, ofStatement node, d => node.dumpEntries base d
  | _, ofBlock node, d => node.dumpEntries base d
  | _, block _ list, d => form base d "Block" [] (list.dumpEntries base (d + 1))
  | _, varStmt _ list, d => form base d "Var" [] (list.dumpEntries base (d + 1))
  | _, declaration _ name init, d => form base d "VarDecl" [name] (init.dumpEntries base (d + 1))
  | _, emptyStmt _, d => form base d "Empty" [] []
  | _, exprStmt _ expr, d => form base d "ExprStmt" [] (expr.dumpEntries base (d + 1))
  | _, ifStmt _ cond yes no, d =>
    form base d "If" [] (cond.dumpEntries base (d + 1) ++ yes.dumpEntries base (d + 1) ++
      relabel (utf8 "else ") (no.dumpEntries base (d + 1)))
  | _, doWhile _ body cond, d =>
    form base d "DoWhile" []
      (body.dumpEntries base (d + 1) ++ relabel (utf8 "while ") (cond.dumpEntries base (d + 1)))
  | _, whileStmt _ cond body, d =>
    form base d "While" [] (cond.dumpEntries base (d + 1) ++ body.dumpEntries base (d + 1))
  | _, forStmt _ init cond post body, d =>
    form base d "For" []
      (relabel (utf8 "init ") (init.dumpEntries base (d + 1)) ++
        relabel (utf8 "cond ") (cond.dumpEntries base (d + 1)) ++
        relabel (utf8 "post ") (post.dumpEntries base (d + 1)) ++ body.dumpEntries base (d + 1))
  | _, forVar _ decls cond post body, d =>
    form base d "ForVar" []
      (decls.dumpEntries base (d + 1) ++ relabel (utf8 "cond ") (cond.dumpEntries base (d + 1)) ++
        relabel (utf8 "post ") (post.dumpEntries base (d + 1)) ++ body.dumpEntries base (d + 1))
  | _, forIn _ into object body, d =>
    form base d "ForIn" []
      (into.dumpEntries base (d + 1) ++ relabel (utf8 "in ") (object.dumpEntries base (d + 1)) ++
        body.dumpEntries base (d + 1))
  | _, forInVar _ decl object body, d =>
    form base d "ForInVar" []
      (decl.dumpEntries base (d + 1) ++ relabel (utf8 "in ") (object.dumpEntries base (d + 1)) ++
        body.dumpEntries base (d + 1))
  | _, continueStmt _ label, d => form base d "Continue" label.toList []
  | _, breakStmt _ label, d => form base d "Break" label.toList []
  | _, returnStmt _ value, d => form base d "Return" [] (value.dumpEntries base (d + 1))
  | _, withStmt _ object body, d =>
    form base d "With" [] (object.dumpEntries base (d + 1) ++ body.dumpEntries base (d + 1))
  | _, labeled _ label body, d => form base d "Labeled" [label] (body.dumpEntries base (d + 1))
  | _, switchStmt _ tag cases fallback trailing, d =>
    form base d "Switch" []
      (tag.dumpEntries base (d + 1) ++ cases.dumpEntries base (d + 1) ++
        fallback.dumpEntries base (d + 1) ++ trailing.dumpEntries base (d + 1))
  | _, caseClause _ value body, d =>
    form base d "Case" [] (value.dumpEntries base (d + 1) ++ body.dumpEntries base (d + 1))
  | _, defaultClause _ body, d => form base d "Default" [] (body.dumpEntries base (d + 1))
  | _, throwStmt _ value, d => form base d "Throw" [] (value.dumpEntries base (d + 1))
  | _, tryStmt _ body handler cleanup, d =>
    form base d "Try" []
      (body.dumpEntries base (d + 1) ++ handler.dumpEntries base (d + 1) ++
        relabel (utf8 "finally ") (cleanup.dumpEntries base (d + 1)))
  | _, catchClause _ param body, d => form base d "Catch" [param] (body.dumpEntries base (d + 1))
  | _, debugger _, d => form base d "Debugger" [] []
  | _, sequence _ (cons only nil), d => only.dumpEntries base d
  | _, sequence _ list, d => form base d "Sequence" [] (list.dumpEntries base (d + 1))
  | _, assign _ nil value, d => value.dumpEntries base d
  | _, assign _ targets value, d =>
    form base d "Assign" []
      (shiftLabels [] (targets.dumpEntries base (d + 1) ++ value.dumpEntries base (d + 1)))
  | _, target node op, d => relabel (op.spelling ++ utf8 " ") (node.dumpEntries base d)
  | _, plain _ value, d => value.dumpEntries base d
  | _, ternary _ test yes no, d =>
    form base d "Cond" []
      (test.dumpEntries base (d + 1) ++ relabel (utf8 "? ") (yes.dumpEntries base (d + 1)) ++
        relabel (utf8 ": ") (no.dumpEntries base (d + 1)))
  | _, level _ _ head nil, d => head.dumpEntries base d
  | _, level _ tier head operations, d =>
    form base d (tierName tier) []
      (head.dumpEntries base (d + 1) ++ operations.dumpEntries base (d + 1))
  | _, operation _ op _ node, d => relabel (op.1.spelling ++ utf8 " ") (node.dumpEntries base d)
  | _, unary _ [] operand, d => operand.dumpEntries base d
  | _, unary _ ops operand, d =>
    form base d "Unary" (ops.map (·.spelling)) (operand.dumpEntries base (d + 1))
  | _, update _ operand none, d => operand.dumpEntries base d
  | _, update _ operand (some op), d =>
    form base d "Postfix" [op.spelling] (operand.dumpEntries base (d + 1))
  | _, call _ callee args modifiers, d =>
    form base d "Call" []
      (callee.dumpEntries base (d + 1) ++ args.dumpEntries base (d + 1) ++
        modifiers.dumpEntries base (d + 1))
  | _, newExpr _ 0 object, d => object.dumpEntries base d
  | _, newExpr _ (n + 1) object, d =>
    form base d "New" [Bytes.ofNat (n + 1)] (object.dumpEntries base (d + 1))
  | _, member _ object nil, d => object.dumpEntries base d
  | _, member _ object modifiers, d =>
    form base d "Member" []
      (object.dumpEntries base (d + 1) ++ modifiers.dumpEntries base (d + 1))
  | _, ofInstantiation node, d => node.dumpEntries base d
  | _, instantiation _ object args, d =>
    form base d "Instantiation" []
      (object.dumpEntries base (d + 1) ++ args.dumpEntries base (d + 1))
  | _, arguments _ list, d => form base d "Args" [] (list.dumpEntries base (d + 1))
  | _, ofArguments node, d => node.dumpEntries base d
  | _, index _ expr, d => form base d "Index" [] (expr.dumpEntries base (d + 1))
  | _, property _ name, d => form base d "Property" [name] []
  | _, thisExpr _, d => form base d "This" [] []
  | _, ident _ name, d => form base d "Ident" [name] []
  | _, nullLit _, d => form base d "Null" [] []
  | _, boolLit _ value, d => form base d "Bool" [Bytes.ofBool value] []
  | _, numberLit _ value, d => form base d "Number" [numeralKind value.value, value.raw] []
  | _, stringLit _ value, d => form base d "String" [Quoted.debug value] []
  | _, arrayLit _ elements, d => form base d "Array" [] (elements.dumpEntries base (d + 1))
  | _, paren _ expr, d => form base d "Paren" [] (expr.dumpEntries base (d + 1))
  | _, funcExpr _ name names body, d =>
    form base d "Function" (name.toList ++ [params names]) (body.dumpEntries base (d + 1))
  | _, instantiated node, d => node.dumpEntries base d

/-- The writes of a node's dump with `indent` spaces before every line; a negative indent counts as
none. -/
def dumpWrites {kind : Kind} (node : Node kind) (indent : Int) : List Bytes :=
  let base := Bytes.spaces indent.toNat
  base :: (node.dumpEntries base 0).flatMap Entry.writes ++ [utf8 "\n"]

/-- A node's dump. -/
def dump {kind : Kind} (node : Node kind) (indent : Int) : Bytes := (node.dumpWrites indent).flatten

end Tree

/-- The dump of a node that may be missing. -/
def AnyNode.dump? : Option AnyNode → (indent : Int) → Bytes
  | some any, indent => any.node.dump indent
  | none, indent => Bytes.spaces indent.toNat ++ utf8 "<nil>\n"

/-- A place to write to that takes a bounded number of bytes. -/
structure Sink where
  stored : Bytes
  room : Nat
  failed : Bool

namespace Sink

def ofLimit (limit : Nat) : Sink := ⟨[], limit, false⟩

/-- Stores what fits. A write that does not fit fails, and after that nothing is written any more. -/
def write (sink : Sink) (bytes : Bytes) : Sink :=
  if sink.failed then sink
  else
    { stored := sink.stored ++ bytes.take sink.room
      room := sink.room - bytes.length
      failed := sink.room < bytes.length }

def writeAll (sink : Sink) (writes : List Bytes) : Sink := writes.foldl write sink

end Sink

/-- Writes a node's dump to a sink that takes `limit` bytes. -/
def Tree.print {kind : Kind} (node : Node kind) (indent : Int) (limit : Nat) : Sink :=
  (Sink.ofLimit limit).writeAll (node.dumpWrites indent)

end EcmaFold
