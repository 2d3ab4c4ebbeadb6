import EcmaFold.Descent.Basic
import EcmaFold.Parser.Expression

/-!
The productions of expressions.
-/

namespace EcmaFold

namespace Descent

/-- The productions that contain themselves. -/
structure Productions where
  assign : Descent (Node .assign)
  statement : Descent (Node .statement)
  element : Descent (Node .element)

/-! Tokens with a meaning -/

def wordLiteral? : Token → Option (Span → Node .primary)
  | .keyword .kwNull => some fun span => .nullLit span
  | .keyword .kwTrue => some fun span => .boolLit span true
  | .keyword .kwFalse => some fun span => .boolLit span false
  | _ => none

def literal? : Descent (Option (Span → Node .primary)) :=
  firstOf (return (← keywordIn [.kwNull, .kwTrue, .kwFalse]).bind wordLiteral?) <|
    firstOf (return (← ask Scanner.number?).map fun value span => .numberLit span value)
      (return (← ask Scanner.stringLiteral?).map fun value span => .stringLit span value)

/-- A primary expression of one token. -/
def atom? : Descent (Option (Span → Node .primary)) := do
  if ← take (.word .kwThis) then return some fun span => .thisExpr span
  match ← identifier? with
  | some name => return some fun span => .ident span name
  | none => literal?

def unaryOp? : Descent (Option UnaryOp) :=
  firstOf (return (← keywordIn [.kwDelete, .kwVoid, .kwTypeof]).bind UnaryOp.ofToken?)
    (return (← punctIn [.inc, .dec, .add, .sub, .bitNot, .not]).bind UnaryOp.ofToken?)

def updateOp? : Descent (Option UpdateOp) := do
  return (← punctIn [.inc, .dec]).bind UpdateOp.ofToken?

def assignOp? : Descent (Option AssignOp) := do
  return (← punctIn [.assign, .addAssign, .subAssign, .mulAssign, .divAssign, .modAssign, .shlAssign, .sarAssign,
    .shrAssign, .andAssign, .orAssign, .xorAssign]).bind AssignOp.ofToken?

/-- The token of an operator of a tier. -/
def operatorToken? : Tier → Descent (Option Token)
  | .logicalOr => punctIn [.lor]
  | .logicalAnd => punctIn [.land]
  | .bitOr => punctIn [.or]
  | .bitXor => punctIn [.xor]
  | .bitAnd => punctIn [.and]
  | .equality => punctIn [.strictEq, .strictNe, .eq, .ne]
  | .relational =>
    firstOf (punctIn [.le, .ge, .lt, .gt]) do
      if ← inAllowed then keywordIn [.kwInstanceof, .kwIn] else keywordIn [.kwInstanceof]
  | .shift => punctIn [.shr, .sar, .shl]
  | .additive => punctIn [.add, .sub]
  | .multiplicative => punctIn [.mul, .div, .mod]

def operator? (tier : Tier) : Descent (Option tier.Op) := do
  return (← operatorToken? tier).bind (tier.opOf? true)

/-! Binary operators -/

/-- An operator of a tier with its right operand. -/
def operation (tier : Tier) (operand : Descent (Node tier.operand)) : Descent (Node (.operation tier)) := do
  let start ← start
  match ← operator? tier with
  | none => fail
  | some op =>
    let right ← operand
    return .operation tier op start right

/-- Operands of one tier with its operators between them. An operator whose right operand does not match
is not taken. -/
def level (tier : Tier) (operand : Descent (Node tier.operand)) : Descent (Node (.tier tier)) :=
  spanned do
    let head ← operand
    let operations ← many (operation tier operand)
    return fun span => .level span tier head (.ofList operations)

/-- Names in parentheses. -/
def params : Descent (List Bytes) := do
  expect (.punct .lparen)
  if ← take (.punct .rparen) then return []
  let names ← separated identifier
  expect (.punct .rparen)
  return names

def property {calls : Bool} : Descent (Node (.modifier calls)) :=
  spanned do
    require (.punct .dot)
    match ← ask Scanner.identifierName? with
    | some name => return fun span => .property span name
    | none => failMissing .propertyName

/-- The offsets of the leading `new`s. -/
def news : Descent (List Nat) :=
  loop do
    let start ← start
    if ← take (.word .kwNew) then return ([start], true)
    return ([], false)

namespace Productions

variable (g : Productions)

/-- One or more assignments with commas between them. -/
def sequence : Descent (Node .sequence) :=
  spanned do
    let list ← separated g.assign
    return fun span => .sequence span (.ofList list)

/-- Source elements in braces. -/
def functionBody : Descent (Tree (.list .element)) :=
  withIn true do
    expect (.punct .lbrace)
    let body ← loop do
      if ← probe (.punct .rbrace) then return ([], false)
      let element ← g.element
      return ([element], true)
    return .ofList body

def functionExpr : Descent (Node .primary) :=
  spanned do
    require (.word .kwFunction)
    let name ← identifier?
    let params ← params
    let body ← g.functionBody
    return fun span => .funcExpr span name params body

/-- An array. Commas without an element between them stand for nothing. -/
def arrayLit : Descent (Node .primary) :=
  spanned do
    require (.punct .lbracket)
    withIn true do
      let elements ← loop do
        if ← take (.punct .rbracket) then return ([], false)
        if ← take (.punct .comma) then return ([], true)
        let element ← g.assign
        if ← take (.punct .comma) then return ([element], true)
        expect (.punct .rbracket)
        return ([element], false)
      return fun span => .arrayLit span (.ofList elements)

/-- An expression in parentheses, in a primary expression that starts where it is told. -/
def paren (start : Nat) : Descent (Node .primary) := do
  if ← take (.punct .lparen) then
    let expr ← withIn true g.sequence
    expect (.punct .rparen)
    return .paren ⟨start, ← mark⟩ expr
  failMissing .expression

def primary : Descent (Node .primary) := do
  let start ← start
  match ← atom? with
  | some build => return build ⟨start, ← mark⟩
  | none => g.arrayLit <|> g.paren start

def arguments : Descent (Node .arguments) :=
  spanned do
    require (.punct .lparen)
    withIn true do
      if ← take (.punct .rparen) then return fun span => .arguments span .nil
      let list ← separated g.assign
      expect (.punct .rparen)
      return fun span => .arguments span (.ofList list)

def index {calls : Bool} : Descent (Node (.modifier calls)) :=
  spanned do
    require (.punct .lbracket)
    withIn true do
      let expr ← g.sequence
      expect (.punct .rbracket)
      return fun span => .index span expr

/-- An index or a property access, or a call if `calls` is set. -/
def modifier : (calls : Bool) → Descent (Node (.modifier calls))
  | true => (Tree.ofArguments <$> g.arguments) <|> g.index <|> property
  | false => g.index <|> property

def member : Descent (Node .member) :=
  spanned do
    let target ← g.functionExpr <|> g.primary
    let modifiers ← many (g.modifier false)
    return fun span => .member span target (.ofList modifiers)

/-- Pairs `new`s, the innermost first, with the argument lists that follow. Gives the `new`s left without
arguments. -/
def pairNews : (news : List Nat) → Node .member → Descent (List Nat × Node .member)
  | [], target => return ([], target)
  | start :: outer, target => do
    match ← optional g.arguments with
    | none => return (start :: outer, target)
    | some args =>
      let instantiation : Node .instantiation := .instantiation ⟨start, ← mark⟩ target args
      match ← many (g.modifier false) with
      | [] => pairNews outer (.ofInstantiation instantiation)
      | modifiers =>
        let span := ⟨start, ← mark⟩
        pairNews outer (.member span (.instantiated instantiation) (.ofList modifiers))

/-- A call if an argument list is left once every `new` is paired, otherwise a member expression behind the
`new`s left. -/
def lhs : Descent (Node .lhs) :=
  spanned do
    let news ← news
    let first ← g.member
    let (unpaired, target) ← g.pairNews news.reverse first
    match unpaired with
    | [] =>
      match ← optional g.arguments with
      | some args =>
        let modifiers ← many (g.modifier true)
        return fun span => .call span target args (.ofList modifiers)
      | none => return fun span => .newExpr span 0 target
    | _ => return fun span => .newExpr span unpaired.length target

/-- A left-hand side with an operator behind it, which has to stand on the same line. -/
def update : Descent (Node .update) :=
  spanned do
    let operand ← g.lhs
    if ← newlineAhead then return fun span => .update span operand none
    let op ← updateOp?
    return fun span => .update span operand op

def unary : Descent (Node .unary) :=
  spanned do
    let ops ← manyFound unaryOp?
    let operand ← g.update
    return fun span => .unary span ops operand

def multiplicative : Descent (Node (.tier .multiplicative)) := level .multiplicative g.unary

def additive : Descent (Node (.tier .additive)) := level .additive g.multiplicative

def shift : Descent (Node (.tier .shift)) := level .shift g.additive

def relational : Descent (Node (.tier .relational)) := level .relational g.shift

def equality : Descent (Node (.tier .equality)) := level .equality g.relational

def bitAnd : Descent (Node (.tier .bitAnd)) := level .bitAnd g.equality

def bitXor : Descent (Node (.tier .bitXor)) := level .bitXor g.bitAnd

def bitOr : Descent (Node (.tier .bitOr)) := level .bitOr g.bitXor

def logicalAnd : Descent (Node (.tier .logicalAnd)) := level .logicalAnd g.bitOr

def logicalOr : Descent (Node (.tier .logicalOr)) := level .logicalOr g.logicalAnd

def cond : Descent (Node .cond) :=
  spanned do
    let test ← g.logicalOr
    if ← take (.punct .question) then
      let yes ← withIn true g.assign
      expect (.punct .colon)
      let no ← g.assign
      return fun span => .ternary span test yes no
    else return fun span => .plain span test

/-- The targets of an assignment and its value. A conditional expression that is a bare left-hand side
becomes a target if an assignment operator follows. -/
def targets : (bound : Nat) → Descent (List (Node .target) × Node .cond)
  | 0 => fail
  | bound + 1 => do
    let value ← g.cond
    match value.bareLhs? with
    | none => return ([], value)
    | some lhs =>
      match ← assignOp? with
      | none => return ([], value)
      | some op =>
        let (rest, last) ← targets bound
        return (.target lhs op :: rest, last)

def assignExpr : Descent (Node .assign) :=
  spanned do
    let (targets, value) ← g.targets (← roundLimit)
    return fun span => .assign span (.ofList targets) value

end Productions

end Descent

end EcmaFold
