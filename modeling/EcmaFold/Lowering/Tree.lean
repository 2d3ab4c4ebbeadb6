import EcmaFold.Lowering.Operator
import EcmaFold.Tree.Walk

/-!
Lowering trees to constants. Every tree gives a value: what has no rule gives a placeholder after its
parts are lowered, so that the rest of a program is lowered around it.
-/

namespace EcmaFold

open Lowered Lowering

namespace Tree

/-- The value of a tree. `before` is the value of what stands before it in the same list: the left operand
of an operation, and the value of a list that ends here. A declaration without initialiser keeps it. -/
def lower : {shape : Shape} → Tree shape → (before : Value) → Lowered Value
  | _, nil, before => return before
  | _, cons first rest, before => do
    let v ← first.lower before
    rest.lower v
  | _, absent, before => return before
  | _, present node, before => node.lower before
  | _, program _ elements, _ => elements.lower .void
  | _, funcDecl span name _ _, _ => do
    note (.function name span.start)
    return .function name
  | _, ofStatement node, before => node.lower before
  | _, ofBlock node, before => node.lower before
  | _, block _ list, _ => list.lower .void
  | _, varStmt _ list, _ => list.lower .void
  | _, declaration _ _ init, before => init.lower before
  | _, emptyStmt _, _ => return .void
  | _, debugger _, _ => return .void
  | _, exprStmt _ expr, _ => expr.lower .void
  | _, ifStmt span cond yes no, _ => do
    let _ ← cond.lower .void
    let _ ← yes.lower .void
    let _ ← no.lower .void
    controlFlow "if" span.start
  | _, doWhile span body cond, _ => do
    let _ ← body.lower .void
    let _ ← cond.lower .void
    controlFlow "do-while" span.start
  | _, whileStmt span cond body, _ => do
    let _ ← cond.lower .void
    let _ ← body.lower .void
    controlFlow "while" span.start
  | _, forStmt span init cond post body, _ => do
    let _ ← init.lower .void
    let _ ← cond.lower .void
    let _ ← post.lower .void
    let _ ← body.lower .void
    controlFlow "for" span.start
  | _, forVar span decls cond post body, _ => do
    let _ ← decls.lower .void
    let _ ← cond.lower .void
    let _ ← post.lower .void
    let _ ← body.lower .void
    controlFlow "for" span.start
  | _, forIn span _ object body, _ => do
    let _ ← object.lower .void
    let _ ← body.lower .void
    controlFlow "for-in" span.start
  | _, forInVar span decl object body, _ => do
    let _ ← decl.lower .void
    let _ ← object.lower .void
    let _ ← body.lower .void
    controlFlow "for-in" span.start
  | _, continueStmt span _, _ => controlFlow "continue" span.start
  | _, breakStmt span _, _ => controlFlow "break" span.start
  | _, returnStmt span value, _ => do
    let _ ← value.lower .void
    controlFlow "return" span.start
  | _, withStmt span object body, _ => do
    let _ ← object.lower .void
    let _ ← body.lower .void
    controlFlow "with" span.start
  | _, labeled _ _ body, _ => body.lower .void
  | _, switchStmt span tag cases fallback trailing, _ => do
    let _ ← tag.lower .void
    let _ ← cases.lower .void
    let _ ← fallback.lower .void
    let _ ← trailing.lower .void
    controlFlow "switch" span.start
  | _, caseClause _ value body, _ => do
    let _ ← value.lower .void
    body.lower .void
  | _, defaultClause _ body, _ => body.lower .void
  | _, throwStmt span value, _ => do
    let _ ← value.lower .void
    controlFlow "throw" span.start
  | _, tryStmt span body handler cleanup, _ => do
    let _ ← body.lower .void
    let _ ← handler.lower .void
    let _ ← cleanup.lower .void
    controlFlow "try" span.start
  | _, catchClause _ _ body, _ => body.lower .void
  | _, sequence _ list, _ => list.lower .void
  | _, assign _ nil value, _ => value.lower .void
  | _, assign span (cons ..) value, _ => do
    let _ ← value.lower .void
    unsupported (utf8 "assignment") span.start
  | _, target _ _, before => return before
  | _, plain _ value, _ => value.lower .void
  | _, ternary span test yes no, _ => do
    let test ← test.lower .void
    let yes ← yes.lower .void
    let no ← no.lower .void
    match test.truthy? with
    | some truth => return if truth then yes else no
    | none => propagate (utf8 "conditional") span.start [test]
  | _, level _ _ head operations, _ => do
    let v ← head.lower .void
    operations.lower v
  | _, operation _ op _ operand, before => do
    let v ← operand.lower .void
    binaryOp op.1 operand.span.start before v
  | _, unary span ops operand, _ => do
    let v ← operand.lower .void
    unaryOps ops span.start v
  | _, update span operand op, _ => do
    let v ← operand.lower .void
    match op with
    | none => return v
    | some op => propagate (utf8 "postfix " ++ op.spelling) span.start [v]
  | _, newExpr _ 0 object, _ => object.lower .void
  | _, newExpr span (_ + 1) _, _ => unsupported (utf8 "new") span.start
  | _, member _ object nil, _ => object.lower .void
  | _, member span _ (cons ..), _ => unsupported (utf8 "member access") span.start
  | _, ofInstantiation node, before => node.lower before
  | _, instantiated node, before => node.lower before
  | _, instantiation span _ _, _ => unsupported (utf8 "new") span.start
  | _, call span _ _ _, _ => unsupported (utf8 "call") span.start
  | _, arguments _ _, before => return before
  | _, ofArguments _, before => return before
  | _, index _ _, before => return before
  | _, property _ _, before => return before
  | _, paren _ expr, _ => expr.lower .void
  | _, nullLit _, _ => return .null
  | _, boolLit _ value, _ => return .bool value
  | _, numberLit _ ⟨_, .int value⟩, _ => return .int value
  | _, numberLit _ ⟨_, .float value⟩, _ => return .float value
  | _, stringLit _ value, _ => return .string value
  | _, thisExpr span, _ => unsupported (utf8 "this") span.start
  | _, ident span _, _ => unsupported (utf8 "identifier") span.start
  | _, arrayLit span _, _ => unsupported (utf8 "array literal") span.start
  | _, funcExpr span .., _ => unsupported (utf8 "function expression") span.start

end Tree

end EcmaFold
