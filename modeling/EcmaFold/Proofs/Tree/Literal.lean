import EcmaFold.Lowering.Tree

/-!
Literals, and trees in which identifiers and `this` are replaced by them.
-/

namespace EcmaFold

/-- What a literal stands for. -/
inductive Literal where
  | null
  | bool (value : Bool)
  | number (value : Number)
  | string (value : Bytes)

namespace Literal

/-- The constant that a literal is lowered to. -/
def value : Literal → Value
  | null => .null
  | bool value => .bool value
  | number ⟨_, .int value⟩ => .int value
  | number ⟨_, .float value⟩ => .float value
  | string value => .string value

/-- The node of a literal. -/
def node (span : Span) : Literal → Node .primary
  | null => .nullLit span
  | bool value => .boolLit span value
  | number value => .numberLit span value
  | string value => .stringLit span value

theorem lower_node (literal : Literal) (span : Span) (before : Value) :
    (literal.node span).lower before = pure literal.value := by
  match literal with
  | null | bool _ | string _ => rfl
  | number ⟨_, .int _⟩ | number ⟨_, .float _⟩ => rfl

end Literal

/-- Literals for some of the leaves of a tree. A leaf is found by the way to it from the root, which names
a subtree by its number among its siblings. -/
abbrev Filling := List Nat → Option (Span × Literal)

/-- What is filled in below a subtree. -/
def Filling.below (filling : Filling) (number : Nat) : Filling := fun way => filling (number :: way)

/-- The literal for the leaf that is reached, or what stands there. -/
def Filling.leaf (filling : Filling) (old : Node .primary) : Node .primary :=
  match filling [] with
  | some (span, literal) => literal.node span
  | none => old

namespace Tree

/-- The tree with literals for some of its identifiers and some of its `this`. -/
def fill : {shape : Shape} → Tree shape → Filling → Tree shape
  | _, nil, _ => nil
  | _, cons head tail, f => cons (head.fill (f.below 0)) (tail.fill (f.below 1))
  | _, absent, _ => absent
  | _, present node, f => present (node.fill (f.below 0))
  | _, program span elements, f => program span (elements.fill (f.below 0))
  | _, funcDecl span name params body, f => funcDecl span name params (body.fill (f.below 0))
  | _, ofStatement node, f => ofStatement (node.fill (f.below 0))
  | _, ofBlock node, f => ofBlock (node.fill (f.below 0))
  | _, block span list, f => block span (list.fill (f.below 0))
  | _, varStmt span list, f => varStmt span (list.fill (f.below 0))
  | _, declaration span name init, f => declaration span name (init.fill (f.below 0))
  | _, emptyStmt span, _ => emptyStmt span
  | _, exprStmt span expr, f => exprStmt span (expr.fill (f.below 0))
  | _, ifStmt span cond yes no, f =>
    ifStmt span (cond.fill (f.below 0)) (yes.fill (f.below 1)) (no.fill (f.below 2))
  | _, doWhile span body cond, f => doWhile span (body.fill (f.below 0)) (cond.fill (f.below 1))
  | _, whileStmt span cond body, f => whileStmt span (cond.fill (f.below 0)) (body.fill (f.below 1))
  | _, forStmt span init cond post body, f =>
    forStmt span (init.fill (f.below 0)) (cond.fill (f.below 1)) (post.fill (f.below 2)) (body.fill (f.below 3))
  | _, forVar span decls cond post body, f =>
    forVar span (decls.fill (f.below 0)) (cond.fill (f.below 1)) (post.fill (f.below 2)) (body.fill (f.below 3))
  | _, forIn span into object body, f =>
    forIn span (into.fill (f.below 0)) (object.fill (f.below 1)) (body.fill (f.below 2))
  | _, forInVar span decl object body, f =>
    forInVar span (decl.fill (f.below 0)) (object.fill (f.below 1)) (body.fill (f.below 2))
  | _, continueStmt span label, _ => continueStmt span label
  | _, breakStmt span label, _ => breakStmt span label
  | _, returnStmt span value, f => returnStmt span (value.fill (f.below 0))
  | _, withStmt span object body, f => withStmt span (object.fill (f.below 0)) (body.fill (f.below 1))
  | _, labeled span label body, f => labeled span label (body.fill (f.below 0))
  | _, switchStmt span tag cases fallback trailing, f =>
    switchStmt span (tag.fill (f.below 0)) (cases.fill (f.below 1)) (fallback.fill (f.below 2))
      (trailing.fill (f.below 3))
  | _, caseClause span value body, f => caseClause span (value.fill (f.below 0)) (body.fill (f.below 1))
  | _, defaultClause span body, f => defaultClause span (body.fill (f.below 0))
  | _, throwStmt span value, f => throwStmt span (value.fill (f.below 0))
  | _, tryStmt span body handler cleanup, f =>
    tryStmt span (body.fill (f.below 0)) (handler.fill (f.below 1)) (cleanup.fill (f.below 2))
  | _, catchClause span param body, f => catchClause span param (body.fill (f.below 0))
  | _, debugger span, _ => debugger span
  | _, sequence span list, f => sequence span (list.fill (f.below 0))
  | _, assign span targets value, f => assign span (targets.fill (f.below 0)) (value.fill (f.below 1))
  | _, target node op, f => target (node.fill (f.below 0)) op
  | _, plain span value, f => plain span (value.fill (f.below 0))
  | _, ternary span test yes no, f =>
    ternary span (test.fill (f.below 0)) (yes.fill (f.below 1)) (no.fill (f.below 2))
  | _, level span tier head operations, f =>
    level span tier (head.fill (f.below 0)) (operations.fill (f.below 1))
  | _, operation tier op offset operand, f => operation tier op offset (operand.fill (f.below 0))
  | _, unary span ops operand, f => unary span ops (operand.fill (f.below 0))
  | _, update span operand op, f => update span (operand.fill (f.below 0)) op
  | _, call span callee args modifiers, f =>
    call span (callee.fill (f.below 0)) (args.fill (f.below 1)) (modifiers.fill (f.below 2))
  | _, newExpr span count object, f => newExpr span count (object.fill (f.below 0))
  | _, member span object modifiers, f => member span (object.fill (f.below 0)) (modifiers.fill (f.below 1))
  | _, ofInstantiation node, f => ofInstantiation (node.fill (f.below 0))
  | _, instantiation span object args, f => instantiation span (object.fill (f.below 0)) (args.fill (f.below 1))
  | _, arguments span list, f => arguments span (list.fill (f.below 0))
  | _, ofArguments args, f => ofArguments (args.fill (f.below 0))
  | _, index span expr, f => index span (expr.fill (f.below 0))
  | _, property span name, _ => property span name
  | _, thisExpr span, f => f.leaf (thisExpr span)
  | _, ident span name, f => f.leaf (ident span name)
  | _, nullLit span, _ => nullLit span
  | _, boolLit span value, _ => boolLit span value
  | _, numberLit span value, _ => numberLit span value
  | _, stringLit span value, _ => stringLit span value
  | _, arrayLit span elements, f => arrayLit span (elements.fill (f.below 0))
  | _, paren span expr, f => paren span (expr.fill (f.below 0))
  | _, funcExpr span name params body, f => funcExpr span name params (body.fill (f.below 0))
  | _, instantiated node, f => instantiated (node.fill (f.below 0))

end Tree

end EcmaFold
