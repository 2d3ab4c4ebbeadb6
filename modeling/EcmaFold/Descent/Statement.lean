import EcmaFold.Descent.Expression
import EcmaFold.Parser.Statement

/-!
The productions of statements and source elements.
-/

namespace EcmaFold

namespace Descent

/-- A production of a statement that is still to be told its place. -/
abbrev Unplaced := Descent (Span → Node .statement)

def emptyStmt : Unplaced := do
  require (.punct .semicolon)
  return fun span => .emptyStmt span

/-- The label of a jump, which has to stand on the same line. -/
def label : Descent (Option Bytes) := do
  if ← newlineAhead then return none
  identifier?

def continueStmt : Unplaced := do
  require (.word .kwContinue)
  let label ← label
  expect (.punct .semicolon)
  return fun span => .continueStmt span label

def breakStmt : Unplaced := do
  require (.word .kwBreak)
  let label ← label
  expect (.punct .semicolon)
  return fun span => .breakStmt span label

def catchParam : Descent Bytes := do
  expect (.punct .lparen)
  let name ← identifier
  expect (.punct .rparen)
  return name

def debugger : Unplaced := do
  require (.word .kwDebugger)
  expect (.punct .semicolon)
  return fun span => .debugger span

/-- Takes the semicolon behind an initialisation. Where `in` would have done as well, it is missed too. -/
def endInit (orIn : Bool) : Descent Unit := do
  if ← probe (.punct .semicolon) then return ()
  if orIn then miss (.symbol (.word .kwIn))
  fail

namespace Productions

variable (g : Productions)

/-- An expression and a semicolon. It may not start with a function, which would be a declaration. -/
def exprStmt : Unplaced := do
  if ← ahead (.word .kwFunction) then fail
  let expr ← g.sequence
  expect (.punct .semicolon)
  return fun span => .exprStmt span expr

def declaration : Descent (Node .declaration) :=
  spanned do
    let name ← identifier
    if ← take (.punct .assign) then
      let init ← g.assign
      return fun span => .declaration span name (.present init)
    else return fun span => .declaration span name .absent

def varStmt : Unplaced := do
  require (.word .kwVar)
  let list ← separated g.declaration
  expect (.punct .semicolon)
  return fun span => .varStmt span (.ofList list)

/-- An expression in parentheses. -/
def headExpr : Descent (Node .sequence) := do
  expect (.punct .lparen)
  let expr ← g.sequence
  expect (.punct .rparen)
  return expr

/-- An `else` whose statement does not match is not taken. -/
def ifStmt : Unplaced := do
  require (.word .kwIf)
  let cond ← g.headExpr
  let yes ← g.statement
  let no ← optional do
    require (.word .kwElse)
    g.statement
  return fun span => .ifStmt span cond yes (.ofOption no)

def doWhile : Unplaced := do
  require (.word .kwDo)
  let body ← g.statement
  expect (.word .kwWhile)
  let cond ← g.headExpr
  expect (.punct .semicolon)
  return fun span => .doWhile span body cond

def whileStmt : Unplaced := do
  require (.word .kwWhile)
  let cond ← g.headExpr
  let body ← g.statement
  return fun span => .whileStmt span cond body

/-- An expression, unless the symbol that ends it comes next. -/
def clause (closing : Symbol) : Descent (Tree (.optional .sequence)) := do
  if ← ahead closing then return .absent
  let expr ← g.sequence
  return .present expr

/-- The condition, the step and the body of a loop. -/
def loopRest : Descent (Tree (.optional .sequence) × Tree (.optional .sequence) × Node .statement) := do
  let cond ← g.clause (.punct .semicolon)
  expect (.punct .semicolon)
  let post ← g.clause (.punct .rparen)
  expect (.punct .rparen)
  let body ← g.statement
  return (cond, post, body)

/-- The object and the body of a loop over keys. -/
def keysRest : Descent (Node .sequence × Node .statement) := do
  let object ← g.sequence
  expect (.punct .rparen)
  let body ← g.statement
  return (object, body)

/-- The rest of a loop with declarations, behind its initialisation. -/
def forVarLoop (decls : List (Node .declaration)) : Unplaced := do
  let (cond, post, body) ← g.loopRest
  return fun span => .forVar span (.ofList decls) cond post body

/-- What follows `for (var`. Only a single declaration can be the target of a loop over keys. -/
def forVarRest : Unplaced := do
  let decls ← withIn false (separated g.declaration)
  match decls with
  | [decl] =>
    if ← take (.word .kwIn) then
      let (object, body) ← g.keysRest
      return fun span => .forInVar span decl object body
    else
      endInit true
      g.forVarLoop decls
  | _ =>
    endInit false
    g.forVarLoop decls

/-- The rest of a loop without declarations, behind its initialisation. -/
def forLoop (init : Tree (.optional .sequence)) : Unplaced := do
  let (cond, post, body) ← g.loopRest
  return fun span => .forStmt span init cond post body

/-- What follows `for (` without `var`. -/
def forRest : Unplaced := do
  let init ← withIn false (g.clause (.punct .semicolon))
  match Grammar.initTarget? init with
  | some lhs =>
    if ← take (.word .kwIn) then
      let (object, body) ← g.keysRest
      return fun span => .forIn span lhs object body
    else
      endInit true
      g.forLoop init
  | none =>
    endInit false
    g.forLoop init

def forStmt : Unplaced := do
  require (.word .kwFor)
  expect (.punct .lparen)
  if ← take (.word .kwVar) then g.forVarRest else g.forRest

/-- The value has to start on the same line. -/
def returnValue : Descent (Option (Node .sequence)) := do
  if ← newlineAhead then return none
  optional g.sequence

def returnStmt : Unplaced := do
  require (.word .kwReturn)
  let value ← g.returnValue
  expect (.punct .semicolon)
  return fun span => .returnStmt span (.ofOption value)

def withStmt : Unplaced := do
  require (.word .kwWith)
  let object ← g.headExpr
  let body ← g.statement
  return fun span => .withStmt span object body

def labeled : Unplaced := do
  match ← identifier? with
  | none => fail
  | some label =>
    expect (.punct .colon)
    let body ← g.statement
    return fun span => .labeled span label body

def caseClauses : Descent (List (Node .caseClause)) :=
  loop do
    let start ← start
    if ← take (.word .kwCase) then
      let value ← g.sequence
      expect (.punct .colon)
      let body ← many g.statement
      let stop ← mark
      return ([.caseClause ⟨start, stop⟩ value (.ofList body)], true)
    else return ([], false)

def defaultClause : Descent (Node .defaultClause) :=
  spanned do
    require (.word .kwDefault)
    expect (.punct .colon)
    let body ← many g.statement
    return fun span => .defaultClause span (.ofList body)

/-- The default clause and the cases behind it, if there is one. -/
def fallback : Descent (Tree (.optional .defaultClause) × List (Node .caseClause)) := do
  match ← optional g.defaultClause with
  | none => return (.absent, [])
  | some clause =>
    let trailing ← g.caseClauses
    return (.present clause, trailing)

def switchStmt : Unplaced := do
  require (.word .kwSwitch)
  let tag ← g.headExpr
  expect (.punct .lbrace)
  let cases ← g.caseClauses
  let (fallback, trailing) ← g.fallback
  expect (.punct .rbrace)
  return fun span => .switchStmt span tag (.ofList cases) fallback (.ofList trailing)

/-- The value has to start on the same line. -/
def throwStmt : Unplaced := do
  require (.word .kwThrow)
  if ← newlineAhead then failMissing .expression
  let value ← g.sequence
  expect (.punct .semicolon)
  return fun span => .throwStmt span value

def block : Descent (Node .block) :=
  spanned do
    expect (.punct .lbrace)
    let list ← many g.statement
    expect (.punct .rbrace)
    return fun span => .block span (.ofList list)

/-- A handler that is there has to be whole. -/
def handler : Descent (Option (Node .catchClause)) := do
  let m ← mark
  let start ← start
  if ← probe (.word .kwCatch) then
    let param ← catchParam
    let body ← g.block
    let stop ← mark
    return some (.catchClause ⟨start, stop⟩ param body)
  reset m
  return none

def cleanup : Descent (Option (Node .block)) := do
  if ← probe (.word .kwFinally) then some <$> g.block else return none

/-- At least one of a handler and a cleanup has to follow. -/
def tryStmt : Unplaced := do
  require (.word .kwTry)
  let body ← g.block
  let handler ← g.handler
  let cleanup ← g.cleanup
  if handler.isNone && cleanup.isNone then fail
  return fun span => .tryStmt span body (.ofOption handler) (.ofOption cleanup)

def blockStmt : Descent (Node .statement) := do
  if ← ahead (.punct .lbrace) then Tree.ofBlock <$> g.block else fail

/-- The statements; the first form that matches is taken. -/
def statementForm : Descent (Node .statement) :=
  spanned g.exprStmt <|> spanned g.varStmt <|> spanned emptyStmt <|> spanned g.ifStmt <|>
    spanned g.doWhile <|> spanned g.whileStmt <|> spanned g.forStmt <|> spanned continueStmt <|>
    spanned breakStmt <|> spanned g.returnStmt <|> spanned g.withStmt <|> spanned g.labeled <|>
    spanned g.switchStmt <|> spanned g.throwStmt <|> spanned g.tryStmt <|> spanned debugger <|>
    g.blockStmt

def funcDecl : Descent (Node .element) :=
  spanned do
    require (.word .kwFunction)
    let name ← identifier
    let params ← params
    let body ← g.functionBody
    return fun span => .funcDecl span name params body

/-- The productions with one more level of nesting. -/
def deepen : Productions :=
  let assign := g.assignExpr
  let statement := statementForm ⟨assign, g.statement, g.element⟩
  ⟨assign, statement, g.funcDecl <|> Tree.ofStatement <$> statement⟩

/-- The productions down to a depth of nesting. -/
def ofDepth : Nat → Productions
  | 0 => ⟨fail, fail, fail⟩
  | depth + 1 => (ofDepth depth).deepen

end Productions

end Descent

end EcmaFold
