import EcmaFold.Parser.Expression

/-!
The grammar of statements and source elements.
-/

namespace EcmaFold

/-- The left-hand side that an initialisation consists of, if it can be the target of a loop over
keys. -/
def Tree.forTarget? : Node .sequence → Option (Node .lhs)
  | .sequence _ (.cons (.assign _ .nil value) .nil) => value.bareLhs?
  | _ => none

namespace Grammar

open EcmaFold.Parser

variable (g : Grammar)

/-- A parser for a statement that is still to be told its place. -/
abbrev Unplaced := Parser (Span → Node .statement)

/-- An expression and a semicolon. It may not start with a function, which would be a declaration. -/
def exprStmt : Unplaced := do
  if ← ahead (.word .kwFunction) then fail
  let expr ← g.sequence true
  expect (.punct .semicolon)
  return fun span => .exprStmt span expr

def declaration (allowIn : Bool) : Parser (Node .declaration) :=
  spanned do
    let name ← identifier
    if ← take (.punct .assign) then
      let init ← g.assign allowIn
      return fun span => .declaration span name (.present init)
    else return fun span => .declaration span name .absent

def varStmt : Unplaced := do
  require (.word .kwVar)
  let list ← separated (g.declaration true)
  expect (.punct .semicolon)
  return fun span => .varStmt span (.ofList list)

def emptyStmt : Unplaced := do
  require (.punct .semicolon)
  return fun span => .emptyStmt span

/-- An expression in parentheses. -/
def headExpr : Parser (Node .sequence) := do
  expect (.punct .lparen)
  let expr ← g.sequence true
  expect (.punct .rparen)
  return expr

/-- An `else` whose statement does not parse is not taken. -/
def ifStmt : Unplaced := do
  require (.word .kwIf)
  let cond ← g.headExpr
  let yes ← g.statement
  let no ← optional do
    require (.word .kwElse)
    g.statement
  return fun span => .ifStmt span cond yes (.ofOption no)

def doWhile : Unplaced := do
  require (.word .kwDo)
  let body ← g.statement
  expect (.word .kwWhile)
  let cond ← g.headExpr
  expect (.punct .semicolon)
  return fun span => .doWhile span body cond

def whileStmt : Unplaced := do
  require (.word .kwWhile)
  let cond ← g.headExpr
  let body ← g.statement
  return fun span => .whileStmt span cond body

/-- An expression, unless the symbol that ends it is next. -/
def clause (allowIn : Bool) (closing : Symbol) : Parser (Tree (.optional .sequence)) := do
  if ← ahead closing then return .absent
  let expr ← g.sequence allowIn
  return .present expr

/-- The condition, the step and the body of a loop. -/
def loopRest : Parser (Tree (.optional .sequence) × Tree (.optional .sequence) × Node .statement) := do
  let cond ← g.clause true (.punct .semicolon)
  expect (.punct .semicolon)
  let post ← g.clause true (.punct .rparen)
  expect (.punct .rparen)
  let body ← g.statement
  return (cond, post, body)

/-- The object and the body of a loop over keys. -/
def keysRest : Parser (Node .sequence × Node .statement) := do
  let object ← g.sequence true
  expect (.punct .rparen)
  let body ← g.statement
  return (object, body)

/-- Takes the semicolon behind an initialisation. Where `in` would have done as well, it is missed
too. -/
def endInit (orIn : Bool) : Parser Unit := do
  if ← probe (.punct .semicolon) then return ()
  if orIn then miss (.symbol (.word .kwIn))
  fail

/-- The rest of a loop with declarations, behind its initialisation. -/
def forVarLoop (decls : List (Node .declaration)) : Unplaced := do
  let (cond, post, body) ← g.loopRest
  return fun span => .forVar span (.ofList decls) cond post body

/-- What follows `for (var`. Only a single declaration can be the target of a loop over keys. -/
def forVarRest : Unplaced := do
  let decls ← separated (g.declaration false)
  match decls with
  | [decl] =>
    if ← take (.word .kwIn) then
      let (object, body) ← g.keysRest
      return fun span => .forInVar span decl object body
    else
      endInit true
      g.forVarLoop decls
  | _ =>
    endInit false
    g.forVarLoop decls

/-- The rest of a loop without declarations, behind its initialisation. -/
def forLoop (init : Tree (.optional .sequence)) : Unplaced := do
  let (cond, post, body) ← g.loopRest
  return fun span => .forStmt span init cond post body

/-- The target that an initialisation is for a loop over keys. -/
def initTarget? : Tree (.optional .sequence) → Option (Node .lhs)
  | .present expr => expr.forTarget?
  | .absent => none

/-- What follows `for (` without `var`. The operator `in` is not allowed in the initialisation, so that
an `in` behind it belongs to the loop. -/
def forRest : Unplaced := do
  let init ← g.clause false (.punct .semicolon)
  match initTarget? init with
  | some lhs =>
    if ← take (.word .kwIn) then
      let (object, body) ← g.keysRest
      return fun span => .forIn span lhs object body
    else
      endInit true
      g.forLoop init
  | none =>
    endInit false
    g.forLoop init

def forStmt : Unplaced := do
  require (.word .kwFor)
  expect (.punct .lparen)
  if ← take (.word .kwVar) then g.forVarRest else g.forRest

/-- The label of a jump, which has to stand on the same line. -/
def label : Parser (Option Bytes) := do
  if ← newlineAhead then return none
  identifier?

def continueStmt : Unplaced := do
  require (.word .kwContinue)
  let label ← label
  expect (.punct .semicolon)
  return fun span => .continueStmt span label

def breakStmt : Unplaced := do
  require (.word .kwBreak)
  let label ← label
  expect (.punct .semicolon)
  return fun span => .breakStmt span label

/-- The value has to start on the same line. -/
def returnValue : Parser (Option (Node .sequence)) := do
  if ← newlineAhead then return none
  optional (g.sequence true)

def returnStmt : Unplaced := do
  require (.word .kwReturn)
  let value ← g.returnValue
  expect (.punct .semicolon)
  return fun span => .returnStmt span (.ofOption value)

def withStmt : Unplaced := do
  require (.word .kwWith)
  let object ← g.headExpr
  let body ← g.statement
  return fun span => .withStmt span object body

def labeled : Unplaced := do
  match ← identifier? with
  | none => fail
  | some label =>
    expect (.punct .colon)
    let body ← g.statement
    return fun span => .labeled span label body

def caseClauses : Parser (List (Node .caseClause)) :=
  loop do
    let start ← offset
    if ← take (.word .kwCase) then
      let value ← g.sequence true
      expect (.punct .colon)
      let body ← many g.statement
      let stop ← reached
      return ([.caseClause ⟨start, stop⟩ value (.ofList body)], true)
    else return ([], false)

def defaultClause : Parser (Node .defaultClause) :=
  spanned do
    require (.word .kwDefault)
    expect (.punct .colon)
    let body ← many g.statement
    return fun span => .defaultClause span (.ofList body)

/-- The default clause and the cases behind it, if there is one. -/
def fallback : Parser (Tree (.optional .defaultClause) × List (Node .caseClause)) := do
  match ← optional g.defaultClause with
  | none => return (.absent, [])
  | some clause =>
    let trailing ← g.caseClauses
    return (.present clause, trailing)

def switchStmt : Unplaced := do
  require (.word .kwSwitch)
  let tag ← g.headExpr
  expect (.punct .lbrace)
  let cases ← g.caseClauses
  let (fallback, trailing) ← g.fallback
  expect (.punct .rbrace)
  return fun span => .switchStmt span tag (.ofList cases) fallback (.ofList trailing)

/-- The value has to start on the same line. -/
def throwStmt : Unplaced := do
  require (.word .kwThrow)
  if ← newlineAhead then failMissing .expression
  let value ← g.sequence true
  expect (.punct .semicolon)
  return fun span => .throwStmt span value

def block : Parser (Node .block) :=
  spanned do
    expect (.punct .lbrace)
    let list ← many g.statement
    expect (.punct .rbrace)
    return fun span => .block span (.ofList list)

def catchParam : Parser Bytes := do
  expect (.punct .lparen)
  let name ← identifier
  expect (.punct .rparen)
  return name

def handler : Parser (Option (Node .catchClause)) := do
  let start ← offset
  if ← probe (.word .kwCatch) then
    let param ← catchParam
    let body ← g.block
    let stop ← reached
    return some (.catchClause ⟨start, stop⟩ param body)
  else return none

def cleanup : Parser (Option (Node .block)) := do
  if ← probe (.word .kwFinally) then some <$> g.block else return none

/-- At least one of a handler and a cleanup has to follow. -/
def tryStmt : Unplaced := do
  require (.word .kwTry)
  let body ← g.block
  let handler ← g.handler
  let cleanup ← g.cleanup
  if handler.isNone && cleanup.isNone then fail
  return fun span => .tryStmt span body (.ofOption handler) (.ofOption cleanup)

def debugger : Unplaced := do
  require (.word .kwDebugger)
  expect (.punct .semicolon)
  return fun span => .debugger span

def blockStmt : Parser (Node .statement) := do
  if ← ahead (.punct .lbrace) then Tree.ofBlock <$> g.block else fail

/-- The statements; the first form that matches is taken. -/
def statementForm : Parser (Node .statement) :=
  spanned g.exprStmt <|> spanned g.varStmt <|> spanned emptyStmt <|> spanned g.ifStmt <|>
    spanned g.doWhile <|> spanned g.whileStmt <|> spanned g.forStmt <|> spanned continueStmt <|>
    spanned breakStmt <|> spanned g.returnStmt <|> spanned g.withStmt <|> spanned g.labeled <|>
    spanned g.switchStmt <|> spanned g.throwStmt <|> spanned g.tryStmt <|> spanned debugger <|>
    g.blockStmt

def funcDecl : Parser (Node .element) :=
  spanned do
    require (.word .kwFunction)
    let name ← identifier
    let params ← params
    let body ← g.functionBody
    return fun span => .funcDecl span name params body

/-- The grammar with one more level of nesting. What a production uses before it has taken a token comes
from the new level, the rest from the old one. -/
def deepen : Grammar :=
  let assign := g.assignExpr
  let statement := statementForm ⟨assign, g.statement, g.element⟩
  ⟨assign, statement, g.funcDecl <|> Tree.ofStatement <$> statement⟩

/-- The grammar down to a depth of nesting. -/
def ofDepth : Nat → Grammar
  | 0 => ⟨fun _ => fail, fail, fail⟩
  | depth + 1 => (ofDepth depth).deepen

end Grammar

end EcmaFold
