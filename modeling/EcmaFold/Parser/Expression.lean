import EcmaFold.Parser.Basic
import EcmaFold.Tree.Basic

/-!
The grammar of expressions.
-/

namespace EcmaFold

/-- Parsers for the categories that contain themselves. Each production is written over a grammar that
it uses only behind at least one token of its own, so that the recursion goes down with the number of
tokens left. -/
structure Grammar where
  /-- An assignment expression; the operator `in` only if the flag is set. -/
  assign : Bool → Parser (Node .assign)
  statement : Parser (Node .statement)
  element : Parser (Node .element)

/-- The left-hand side that an expression consists of, if no operator is applied around it. -/
def Tree.bareLhs? : {shape : Shape} → Tree shape → Option (Node .lhs)
  | _, .plain _ value => value.bareLhs?
  | _, .level _ _ head .nil => head.bareLhs?
  | _, .unary _ [] operand => operand.bareLhs?
  | _, .update _ operand none => some operand
  | _, _ => none

/-- An assignment with one more target in front. -/
def Tree.addTarget (lhs : Node .lhs) (op : AssignOp) : Node .assign → Span → Node .assign
  | .assign _ targets value, span => .assign span (.cons (.target lhs op) targets) value

namespace Grammar

open EcmaFold.Parser

variable (g : Grammar)

/-- One or more assignments with commas between them. -/
def sequence (allowIn : Bool) : Parser (Node .sequence) :=
  spanned do
    let list ← separated (g.assign allowIn)
    return fun span => .sequence span (.ofList list)

/-- Names in parentheses. -/
def params : Parser (List Bytes) := do
  expect (.punct .lparen)
  if ← take (.punct .rparen) then return []
  let names ← separated identifier
  expect (.punct .rparen)
  return names

/-- Source elements in braces. -/
def functionBody : Parser (Tree (.list .element)) := do
  expect (.punct .lbrace)
  let body ← loop do
    if ← probe (.punct .rbrace) then return ([], false)
    let element ← g.element
    return ([element], true)
  return .ofList body

/-- A function without a name or with one of its own. -/
def functionExpr : Parser (Node .primary) :=
  spanned do
    require (.word .kwFunction)
    let name ← identifier?
    let params ← params
    let body ← g.functionBody
    return fun span => .funcExpr span name params body

/-- The primary expression that one token makes. -/
def atom? : Token → Option (Span → Node .primary)
  | .keyword .kwThis => some fun span => .thisExpr span
  | .name name => some fun span => .ident span name
  | .keyword .kwNull => some fun span => .nullLit span
  | .keyword .kwTrue => some fun span => .boolLit span true
  | .keyword .kwFalse => some fun span => .boolLit span false
  | .number value => some fun span => .numberLit span value
  | .string value => some fun span => .stringLit span value
  | _ => none

def atom : Parser (Node .primary) :=
  spanned do
    match ← accept atom? with
    | some node => return node
    | none => fail

/-- An array. Commas without an element between them stand for nothing. -/
def arrayLit : Parser (Node .primary) :=
  spanned do
    require (.punct .lbracket)
    let elements ← loop do
      if ← take (.punct .rbracket) then return ([], false)
      if ← take (.punct .comma) then return ([], true)
      let element ← g.assign true
      if ← take (.punct .comma) then return ([element], true)
      expect (.punct .rbracket)
      return ([element], false)
    return fun span => .arrayLit span (.ofList elements)

def paren : Parser (Node .primary) :=
  spanned do
    if ← take (.punct .lparen) then
      let expr ← g.sequence true
      expect (.punct .rparen)
      return fun span => .paren span expr
    else failMissing .expression

def primary : Parser (Node .primary) := atom <|> g.arrayLit <|> g.paren

def arguments : Parser (Node .arguments) :=
  spanned do
    require (.punct .lparen)
    if ← take (.punct .rparen) then return fun span => .arguments span .nil
    let list ← separated (g.assign true)
    expect (.punct .rparen)
    return fun span => .arguments span (.ofList list)

def index {calls : Bool} : Parser (Node (.modifier calls)) :=
  spanned do
    require (.punct .lbracket)
    let expr ← g.sequence true
    expect (.punct .rbracket)
    return fun span => .index span expr

/-- Takes a point. Behind an object, the point of a number such as `.5` is a point too, and what
follows it is no name. -/
def point : Parser Unit := fun cursor =>
  match cursor.rest with
  | ⟨.number value, _, span⟩ :: _ =>
    if value.raw.head? = some 0x2E then ⟨none, some ⟨span.start + 1, [.propertyName]⟩⟩
    else ⟨none, none⟩
  | _ => require (.punct .dot) cursor

/-- The name at a token that is one, reserved or not. -/
def anyName? : Token → Option Bytes
  | .name spelling => some spelling
  | .keyword word => some word.spelling
  | _ => none

def property {calls : Bool} : Parser (Node (.modifier calls)) :=
  spanned do
    point
    match ← accept anyName? with
    | some name => return fun span => .property span name
    | none => failMissing .propertyName

/-- An index or a property access, or a call if `calls` is set. -/
def modifier : (calls : Bool) → Parser (Node (.modifier calls))
  | true => (Tree.ofArguments <$> g.arguments) <|> g.index <|> property
  | false => g.index <|> property

def member : Parser (Node .member) :=
  spanned do
    let target ← g.functionExpr <|> g.primary
    let modifiers ← many (g.modifier false)
    return fun span => .member span target (.ofList modifiers)

/-- The offsets of the leading `new`s. -/
def news : Parser (List Nat) :=
  loop do
    let start ← offset
    if ← take (.word .kwNew) then return ([start], true)
    return ([], false)

/-- Pairs `new`s, the innermost first, with the argument lists that follow. Gives the `new`s left
without arguments. -/
def pairNews : (news : List Nat) → Node .member → Parser (List Nat × Node .member)
  | [], target => return ([], target)
  | start :: outer, target => do
    match ← optional g.arguments with
    | none => return (start :: outer, target)
    | some args =>
      let instantiation : Node .instantiation := .instantiation ⟨start, ← reached⟩ target args
      match ← many (g.modifier false) with
      | [] => pairNews outer (.ofInstantiation instantiation)
      | modifiers =>
        let span := ⟨start, ← reached⟩
        pairNews outer (.member span (.instantiated instantiation) (.ofList modifiers))

/-- A call if an argument list is left once every `new` is paired, otherwise a member expression behind
the `new`s left. -/
def lhs : Parser (Node .lhs) :=
  spanned do
    let news ← news
    let first ← g.member
    let (unpaired, target) ← g.pairNews news.reverse first
    match unpaired with
    | [] =>
      match ← optional g.arguments with
      | some args =>
        let modifiers ← many (g.modifier true)
        return fun span => .call span target args (.ofList modifiers)
      | none => return fun span => .newExpr span 0 target
    | _ => return fun span => .newExpr span unpaired.length target

/-- A left-hand side with an operator behind it, which has to stand on the same line. -/
def update : Parser (Node .update) :=
  spanned do
    let operand ← g.lhs
    if ← newlineAhead then return fun span => .update span operand none
    let op ← accept UpdateOp.ofToken?
    return fun span => .update span operand op

def unary : Parser (Node .unary) :=
  spanned do
    let ops ← manyTokens UnaryOp.ofToken?
    let operand ← g.update
    return fun span => .unary span ops operand

/-- An operator of a tier with its right operand. -/
def operation (tier : Tier) (allowIn : Bool) (operand : Parser (Node tier.operand)) :
    Parser (Node (.operation tier)) := do
  let start ← offset
  match ← accept (tier.opOf? allowIn) with
  | none => fail
  | some op =>
    let right ← operand
    return .operation tier op start right

/-- Operands of one tier with its operators between them. An operator whose right operand does not
parse is not taken. -/
def level (tier : Tier) (allowIn : Bool) (operand : Parser (Node tier.operand)) :
    Parser (Node (.tier tier)) :=
  spanned do
    let head ← operand
    let operations ← many (operation tier allowIn operand)
    return fun span => .level span tier head (.ofList operations)

def multiplicative (allowIn : Bool) : Parser (Node (.tier .multiplicative)) :=
  level .multiplicative allowIn g.unary

def additive (allowIn : Bool) : Parser (Node (.tier .additive)) :=
  level .additive allowIn (g.multiplicative allowIn)

def shift (allowIn : Bool) : Parser (Node (.tier .shift)) :=
  level .shift allowIn (g.additive allowIn)

def relational (allowIn : Bool) : Parser (Node (.tier .relational)) :=
  level .relational allowIn (g.shift allowIn)

def equality (allowIn : Bool) : Parser (Node (.tier .equality)) :=
  level .equality allowIn (g.relational allowIn)

def bitAnd (allowIn : Bool) : Parser (Node (.tier .bitAnd)) :=
  level .bitAnd allowIn (g.equality allowIn)

def bitXor (allowIn : Bool) : Parser (Node (.tier .bitXor)) :=
  level .bitXor allowIn (g.bitAnd allowIn)

def bitOr (allowIn : Bool) : Parser (Node (.tier .bitOr)) :=
  level .bitOr allowIn (g.bitXor allowIn)

def logicalAnd (allowIn : Bool) : Parser (Node (.tier .logicalAnd)) :=
  level .logicalAnd allowIn (g.bitOr allowIn)

def logicalOr (allowIn : Bool) : Parser (Node (.tier .logicalOr)) :=
  level .logicalOr allowIn (g.logicalAnd allowIn)

def cond (allowIn : Bool) : Parser (Node .cond) :=
  spanned do
    let test ← g.logicalOr allowIn
    if ← take (.punct .question) then
      let yes ← g.assign true
      expect (.punct .colon)
      let no ← g.assign allowIn
      return fun span => .ternary span test yes no
    else return fun span => .plain span test

/-- A conditional expression. If it is a bare left-hand side and an assignment operator follows, it
becomes a target of the assignment behind the operator. -/
def assignExpr (allowIn : Bool) : Parser (Node .assign) :=
  spanned do
    let value ← g.cond allowIn
    match value.bareLhs? with
    | none => return fun span => .assign span .nil value
    | some lhs =>
      match ← accept AssignOp.ofToken? with
      | none => return fun span => .assign span .nil value
      | some op =>
        let rest ← g.assign allowIn
        return Tree.addTarget lhs op rest

end Grammar

end EcmaFold
