import EcmaFold.Operator

/-!
Syntax trees. `Tree` is one family for all categories of the grammar, indexed by what a tree may
stand for: a node of a kind, a list of such nodes, or a node that may be absent. So a tree that
breaks the precedence of operators or puts a statement where an expression belongs cannot be written
down, and a fact about all trees is one induction.

Every binary tier is a head with a list of operations; a tier without operations stands for its head.
The same holds of the other wrapping nodes: a sequence of one, an assignment without targets, a
unary expression without operators.
-/

namespace EcmaFold

/-- The kinds of nodes. -/
inductive Kind where
  | program | element | statement | block | declaration
  | caseClause | defaultClause | catchClause
  | sequence | assign | target | cond
  | tier (tier : Tier) | operation (tier : Tier)
  | unary | update | lhs | member | instantiation | primary
  | arguments
  /-- What may follow a callee or an object; calls only if the flag is set. -/
  | modifier (calls : Bool)
  deriving DecidableEq, Repr

/-- The kind of the operands of a tier: the next tighter tier, or unary expressions. -/
def Tier.operand : Tier → Kind
  | .logicalOr => .tier .logicalAnd
  | .logicalAnd => .tier .bitOr
  | .bitOr => .tier .bitXor
  | .bitXor => .tier .bitAnd
  | .bitAnd => .tier .equality
  | .equality => .tier .relational
  | .relational => .tier .shift
  | .shift => .tier .additive
  | .additive => .tier .multiplicative
  | .multiplicative => .unary

/-- What a tree stands for. -/
inductive Shape where
  | node (kind : Kind)
  | list (kind : Kind)
  | optional (kind : Kind)
  deriving DecidableEq, Repr

/-- Syntax trees with the places of their nodes. -/
inductive Tree : Shape → Type where
  | nil {kind : Kind} : Tree (.list kind)
  | cons {kind : Kind} (head : Tree (.node kind)) (tail : Tree (.list kind)) : Tree (.list kind)
  | absent {kind : Kind} : Tree (.optional kind)
  | present {kind : Kind} (node : Tree (.node kind)) : Tree (.optional kind)

  | program (span : Span) (elements : Tree (.list .element)) : Tree (.node .program)
  | funcDecl (span : Span) (name : Bytes) (params : List Bytes) (body : Tree (.list .element)) :
      Tree (.node .element)
  | ofStatement (statement : Tree (.node .statement)) : Tree (.node .element)

  | ofBlock (block : Tree (.node .block)) : Tree (.node .statement)
  | block (span : Span) (list : Tree (.list .statement)) : Tree (.node .block)
  | varStmt (span : Span) (list : Tree (.list .declaration)) : Tree (.node .statement)
  | declaration (span : Span) (name : Bytes) (init : Tree (.optional .assign)) :
      Tree (.node .declaration)
  | emptyStmt (span : Span) : Tree (.node .statement)
  | exprStmt (span : Span) (expr : Tree (.node .sequence)) : Tree (.node .statement)
  | ifStmt (span : Span) (cond : Tree (.node .sequence)) (yes : Tree (.node .statement))
      (no : Tree (.optional .statement)) : Tree (.node .statement)
  | doWhile (span : Span) (body : Tree (.node .statement)) (cond : Tree (.node .sequence)) :
      Tree (.node .statement)
  | whileStmt (span : Span) (cond : Tree (.node .sequence)) (body : Tree (.node .statement)) :
      Tree (.node .statement)
  | forStmt (span : Span) (init cond post : Tree (.optional .sequence))
      (body : Tree (.node .statement)) : Tree (.node .statement)
  | forVar (span : Span) (decls : Tree (.list .declaration)) (cond post : Tree (.optional .sequence))
      (body : Tree (.node .statement)) : Tree (.node .statement)
  | forIn (span : Span) (target : Tree (.node .lhs)) (object : Tree (.node .sequence))
      (body : Tree (.node .statement)) : Tree (.node .statement)
  | forInVar (span : Span) (decl : Tree (.node .declaration)) (object : Tree (.node .sequence))
      (body : Tree (.node .statement)) : Tree (.node .statement)
  | continueStmt (span : Span) (label : Option Bytes) : Tree (.node .statement)
  | breakStmt (span : Span) (label : Option Bytes) : Tree (.node .statement)
  | returnStmt (span : Span) (value : Tree (.optional .sequence)) : Tree (.node .statement)
  | withStmt (span : Span) (object : Tree (.node .sequence)) (body : Tree (.node .statement)) :
      Tree (.node .statement)
  | labeled (span : Span) (label : Bytes) (body : Tree (.node .statement)) : Tree (.node .statement)
  | switchStmt (span : Span) (tag : Tree (.node .sequence)) (cases : Tree (.list .caseClause))
      (fallback : Tree (.optional .defaultClause)) (trailing : Tree (.list .caseClause)) :
      Tree (.node .statement)
  | caseClause (span : Span) (value : Tree (.node .sequence)) (body : Tree (.list .statement)) :
      Tree (.node .caseClause)
  | defaultClause (span : Span) (body : Tree (.list .statement)) : Tree (.node .defaultClause)
  | throwStmt (span : Span) (value : Tree (.node .sequence)) : Tree (.node .statement)
  | tryStmt (span : Span) (body : Tree (.node .block)) (handler : Tree (.optional .catchClause))
      (cleanup : Tree (.optional .block)) : Tree (.node .statement)
  | catchClause (span : Span) (param : Bytes) (body : Tree (.node .block)) :
      Tree (.node .catchClause)
  | debugger (span : Span) : Tree (.node .statement)

  | sequence (span : Span) (list : Tree (.list .assign)) : Tree (.node .sequence)
  | assign (span : Span) (targets : Tree (.list .target)) (value : Tree (.node .cond)) :
      Tree (.node .assign)
  | target (lhs : Tree (.node .lhs)) (op : AssignOp) : Tree (.node .target)
  | plain (span : Span) (value : Tree (.node (.tier .logicalOr))) : Tree (.node .cond)
  | ternary (span : Span) (test : Tree (.node (.tier .logicalOr))) (yes no : Tree (.node .assign)) :
      Tree (.node .cond)
  | level (span : Span) (tier : Tier) (head : Tree (.node tier.operand))
      (operations : Tree (.list (.operation tier))) : Tree (.node (.tier tier))
  /-- An operator, its offset, and its right operand. -/
  | operation (tier : Tier) (op : tier.Op) (offset : Nat) (operand : Tree (.node tier.operand)) :
      Tree (.node (.operation tier))
  | unary (span : Span) (ops : List UnaryOp) (operand : Tree (.node .update)) : Tree (.node .unary)
  | update (span : Span) (operand : Tree (.node .lhs)) (op : Option UpdateOp) : Tree (.node .update)
  | call (span : Span) (callee : Tree (.node .member)) (args : Tree (.node .arguments))
      (modifiers : Tree (.list (.modifier true))) : Tree (.node .lhs)
  /-- A member expression behind `count` times `new`, each without arguments. -/
  | newExpr (span : Span) (count : Nat) (target : Tree (.node .member)) : Tree (.node .lhs)
  | member (span : Span) (target : Tree (.node .primary))
      (modifiers : Tree (.list (.modifier false))) : Tree (.node .member)
  | ofInstantiation (instantiation : Tree (.node .instantiation)) : Tree (.node .member)
  | instantiation (span : Span) (target : Tree (.node .member)) (args : Tree (.node .arguments)) :
      Tree (.node .instantiation)
  | arguments (span : Span) (list : Tree (.list .assign)) : Tree (.node .arguments)
  | ofArguments (args : Tree (.node .arguments)) : Tree (.node (.modifier true))
  | index {calls : Bool} (span : Span) (index : Tree (.node .sequence)) :
      Tree (.node (.modifier calls))
  | property {calls : Bool} (span : Span) (name : Bytes) : Tree (.node (.modifier calls))

  | thisExpr (span : Span) : Tree (.node .primary)
  | ident (span : Span) (name : Bytes) : Tree (.node .primary)
  | nullLit (span : Span) : Tree (.node .primary)
  | boolLit (span : Span) (value : Bool) : Tree (.node .primary)
  | numberLit (span : Span) (value : Number) : Tree (.node .primary)
  | stringLit (span : Span) (value : Bytes) : Tree (.node .primary)
  | arrayLit (span : Span) (elements : Tree (.list .assign)) : Tree (.node .primary)
  | paren (span : Span) (expr : Tree (.node .sequence)) : Tree (.node .primary)
  | funcExpr (span : Span) (name : Option Bytes) (params : List Bytes)
      (body : Tree (.list .element)) : Tree (.node .primary)
  /-- An instantiation that further accesses apply to. -/
  | instantiated (instantiation : Tree (.node .instantiation)) : Tree (.node .primary)

/-- A node of one kind. -/
abbrev Node (kind : Kind) := Tree (.node kind)

namespace Tree

/-- The list tree of some nodes. -/
def ofList {kind : Kind} : List (Node kind) → Tree (.list kind)
  | [] => nil
  | head :: tail => cons head (ofList tail)

/-- The tree of a node that may be absent. -/
def ofOption {kind : Kind} : Option (Node kind) → Tree (.optional kind)
  | none => absent
  | some node => present node

end Tree

end EcmaFold
