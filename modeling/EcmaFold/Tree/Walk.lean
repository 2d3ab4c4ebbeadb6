import EcmaFold.Tree.Basic

/-!
Walking a tree. The wrappers `ofStatement`, `ofBlock`, `ofInstantiation`, `instantiated` and
`ofArguments` only move a node into another kind, and operations and targets only pair a node with an
operator; a walk passes through all of these to the nodes themselves.
-/

namespace EcmaFold

/-- A node of any kind. -/
structure AnyNode where
  kind : Kind
  node : Node kind

namespace Tree

/-- The place of a node. A list has that of its first node. -/
def span : {shape : Shape} → Tree shape → Span
  | _, nil | _, absent => ⟨0, 0⟩
  | _, cons node _ | _, present node => node.span
  | _, program span .. | _, funcDecl span .. | _, block span .. | _, varStmt span ..
  | _, declaration span .. | _, emptyStmt span | _, exprStmt span .. | _, ifStmt span ..
  | _, doWhile span .. | _, whileStmt span .. | _, forStmt span .. | _, forVar span ..
  | _, forIn span .. | _, forInVar span .. | _, continueStmt span .. | _, breakStmt span ..
  | _, returnStmt span .. | _, withStmt span .. | _, labeled span .. | _, switchStmt span ..
  | _, caseClause span .. | _, defaultClause span .. | _, throwStmt span .. | _, tryStmt span ..
  | _, catchClause span .. | _, debugger span | _, sequence span .. | _, assign span ..
  | _, plain span .. | _, ternary span .. | _, level span .. | _, unary span .. | _, update span ..
  | _, call span .. | _, newExpr span .. | _, member span .. | _, instantiation span ..
  | _, arguments span .. | _, index span .. | _, property span .. | _, thisExpr span
  | _, ident span .. | _, nullLit span | _, boolLit span .. | _, numberLit span ..
  | _, stringLit span .. | _, arrayLit span .. | _, paren span .. | _, funcExpr span .. => span
  | _, ofStatement node => node.span
  | _, ofBlock node => node.span
  | _, target node _ => node.span
  | _, operation _ _ offset node => ⟨offset, node.span.stop⟩
  | _, ofInstantiation node => node.span
  | _, ofArguments node => node.span
  | _, instantiated node => node.span

/-- The name of a node's type. Lists and wrappers have none. -/
def typeName : {shape : Shape} → Tree shape → String
  | _, nil | _, cons .. | _, absent | _, present .. => ""
  | _, ofStatement .. | _, ofBlock .. | _, target .. | _, operation .. => ""
  | _, ofInstantiation .. | _, ofArguments .. | _, instantiated .. => ""
  | _, program .. => "Program"
  | _, funcDecl .. => "FuncDecl"
  | _, block .. => "BlockStmt"
  | _, varStmt .. => "VarStmt"
  | _, declaration .. => "VarDecl"
  | _, emptyStmt .. => "EmptyStmt"
  | _, exprStmt .. => "ExprStmt"
  | _, ifStmt .. => "IfStmt"
  | _, doWhile .. => "DoWhileStmt"
  | _, whileStmt .. => "WhileStmt"
  | _, forStmt .. => "ForStmt"
  | _, forVar .. => "ForVarStmt"
  | _, forIn .. => "ForInStmt"
  | _, forInVar .. => "ForInVarStmt"
  | _, continueStmt .. => "ContinueStmt"
  | _, breakStmt .. => "BreakStmt"
  | _, returnStmt .. => "ReturnStmt"
  | _, withStmt .. => "WithStmt"
  | _, labeled .. => "LabeledStmt"
  | _, switchStmt .. => "SwitchStmt"
  | _, caseClause .. => "CaseClause"
  | _, defaultClause .. => "DefaultClause"
  | _, throwStmt .. => "ThrowStmt"
  | _, tryStmt .. => "TryStmt"
  | _, catchClause .. => "CatchClause"
  | _, debugger .. => "DebuggerStmt"
  | _, sequence .. => "SequenceExpr"
  | _, assign .. => "AssignExpr"
  | _, plain .. | _, ternary .. => "CondExpr"
  | _, level _ .logicalOr .. => "LogicalOrExpr"
  | _, level _ .logicalAnd .. => "LogicalAndExpr"
  | _, level _ .bitOr .. => "BitOrExpr"
  | _, level _ .bitXor .. => "BitXorExpr"
  | _, level _ .bitAnd .. => "BitAndExpr"
  | _, level _ .equality .. => "EqualityExpr"
  | _, level _ .relational .. => "RelationalExpr"
  | _, level _ .shift .. => "ShiftExpr"
  | _, level _ .additive .. => "AdditiveExpr"
  | _, level _ .multiplicative .. => "MultiplicativeExpr"
  | _, unary .. => "UnaryExpr"
  | _, update .. => "PostfixExpr"
  | _, call .. => "CallExpr"
  | _, newExpr .. => "NewExpr"
  | _, member .. => "MemberAccess"
  | _, instantiation .. => "Instantiation"
  | _, arguments .. => "Arguments"
  | _, index .. => "Index"
  | _, property .. => "Property"
  | _, thisExpr .. => "ThisExpr"
  | _, ident .. => "Ident"
  | _, nullLit .. => "NullLit"
  | _, boolLit .. => "BoolLit"
  | _, numberLit .. => "NumberLit"
  | _, stringLit .. => "StringLit"
  | _, arrayLit .. => "ArrayLit"
  | _, paren .. => "ParenExpr"
  | _, funcExpr .. => "FunctionExpr"

end Tree

/-- A node met on a walk, with the node it is a child of. -/
structure Visit where
  node : AnyNode
  parent : Option AnyNode

namespace Tree

variable (descend : AnyNode → Bool)

/-- Visits a node and, if `descend` says so, what lies below it. -/
def enter (node : AnyNode) (parent : Option AnyNode) (below : Option AnyNode → List Visit) :
    List Visit :=
  ⟨node, parent⟩ :: (if descend node then below (some node) else [])

/-- The nodes of a tree in the order of their beginnings, each before its children. The children of a
node that `descend` refuses are left out. -/
def visits : {shape : Shape} → Tree shape → (parent : Option AnyNode) → List Visit
  | _, nil, _ => []
  | _, cons node rest, up => node.visits up ++ rest.visits up
  | _, absent, _ => []
  | _, present node, up => node.visits up
  | _, ofStatement node, up => node.visits up
  | _, ofBlock node, up => node.visits up
  | _, target node _, up => node.visits up
  | _, operation _ _ _ node, up => node.visits up
  | _, ofInstantiation node, up => node.visits up
  | _, ofArguments node, up => node.visits up
  | _, instantiated node, up => node.visits up
  | _, program s elements, up => enter descend ⟨_, program s elements⟩ up elements.visits
  | _, funcDecl s name params body, up =>
    enter descend ⟨_, funcDecl s name params body⟩ up body.visits
  | _, block s list, up => enter descend ⟨_, block s list⟩ up list.visits
  | _, varStmt s list, up => enter descend ⟨_, varStmt s list⟩ up list.visits
  | _, declaration s name init, up => enter descend ⟨_, declaration s name init⟩ up init.visits
  | _, emptyStmt s, up => enter descend ⟨_, emptyStmt s⟩ up fun _ => []
  | _, exprStmt s expr, up => enter descend ⟨_, exprStmt s expr⟩ up expr.visits
  | _, ifStmt s cond yes no, up => enter descend ⟨_, ifStmt s cond yes no⟩ up fun self =>
    cond.visits self ++ yes.visits self ++ no.visits self
  | _, doWhile s body cond, up => enter descend ⟨_, doWhile s body cond⟩ up fun self =>
    body.visits self ++ cond.visits self
  | _, whileStmt s cond body, up => enter descend ⟨_, whileStmt s cond body⟩ up fun self =>
    cond.visits self ++ body.visits self
  | _, forStmt s init cond post body, up =>
    enter descend ⟨_, forStmt s init cond post body⟩ up fun self =>
      init.visits self ++ cond.visits self ++ post.visits self ++ body.visits self
  | _, forVar s decls cond post body, up =>
    enter descend ⟨_, forVar s decls cond post body⟩ up fun self =>
      decls.visits self ++ cond.visits self ++ post.visits self ++ body.visits self
  | _, forIn s into object body, up =>
    enter descend ⟨_, forIn s into object body⟩ up fun self =>
      into.visits self ++ object.visits self ++ body.visits self
  | _, forInVar s decl object body, up =>
    enter descend ⟨_, forInVar s decl object body⟩ up fun self =>
      decl.visits self ++ object.visits self ++ body.visits self
  | _, continueStmt s label, up => enter descend ⟨_, continueStmt s label⟩ up fun _ => []
  | _, breakStmt s label, up => enter descend ⟨_, breakStmt s label⟩ up fun _ => []
  | _, returnStmt s value, up => enter descend ⟨_, returnStmt s value⟩ up value.visits
  | _, withStmt s object body, up => enter descend ⟨_, withStmt s object body⟩ up fun self =>
    object.visits self ++ body.visits self
  | _, labeled s label body, up => enter descend ⟨_, labeled s label body⟩ up body.visits
  | _, switchStmt s tag cases fallback trailing, up =>
    enter descend ⟨_, switchStmt s tag cases fallback trailing⟩ up fun self =>
      tag.visits self ++ cases.visits self ++ fallback.visits self ++ trailing.visits self
  | _, caseClause s value body, up => enter descend ⟨_, caseClause s value body⟩ up fun self =>
    value.visits self ++ body.visits self
  | _, defaultClause s body, up => enter descend ⟨_, defaultClause s body⟩ up body.visits
  | _, throwStmt s value, up => enter descend ⟨_, throwStmt s value⟩ up value.visits
  | _, tryStmt s body handler cleanup, up =>
    enter descend ⟨_, tryStmt s body handler cleanup⟩ up fun self =>
      body.visits self ++ handler.visits self ++ cleanup.visits self
  | _, catchClause s param body, up => enter descend ⟨_, catchClause s param body⟩ up body.visits
  | _, debugger s, up => enter descend ⟨_, debugger s⟩ up fun _ => []
  | _, sequence s list, up => enter descend ⟨_, sequence s list⟩ up list.visits
  | _, assign s targets value, up => enter descend ⟨_, assign s targets value⟩ up fun self =>
    targets.visits self ++ value.visits self
  | _, plain s value, up => enter descend ⟨_, plain s value⟩ up value.visits
  | _, ternary s test yes no, up => enter descend ⟨_, ternary s test yes no⟩ up fun self =>
    test.visits self ++ yes.visits self ++ no.visits self
  | _, level s tier head operations, up =>
    enter descend ⟨_, level s tier head operations⟩ up fun self =>
      head.visits self ++ operations.visits self
  | _, unary s ops operand, up => enter descend ⟨_, unary s ops operand⟩ up operand.visits
  | _, update s operand op, up => enter descend ⟨_, update s operand op⟩ up operand.visits
  | _, call s callee args modifiers, up =>
    enter descend ⟨_, call s callee args modifiers⟩ up fun self =>
      callee.visits self ++ args.visits self ++ modifiers.visits self
  | _, newExpr s count base, up => enter descend ⟨_, newExpr s count base⟩ up base.visits
  | _, member s base modifiers, up => enter descend ⟨_, member s base modifiers⟩ up fun self =>
    base.visits self ++ modifiers.visits self
  | _, instantiation s base args, up =>
    enter descend ⟨_, instantiation s base args⟩ up fun self =>
      base.visits self ++ args.visits self
  | _, arguments s list, up => enter descend ⟨_, arguments s list⟩ up list.visits
  | .node (.modifier calls), index s expr, up =>
    enter descend ⟨.modifier calls, index s expr⟩ up expr.visits
  | .node (.modifier calls), property s name, up =>
    enter descend ⟨.modifier calls, property s name⟩ up fun _ => []
  | _, thisExpr s, up => enter descend ⟨_, thisExpr s⟩ up fun _ => []
  | _, ident s name, up => enter descend ⟨_, ident s name⟩ up fun _ => []
  | _, nullLit s, up => enter descend ⟨_, nullLit s⟩ up fun _ => []
  | _, boolLit s value, up => enter descend ⟨_, boolLit s value⟩ up fun _ => []
  | _, numberLit s value, up => enter descend ⟨_, numberLit s value⟩ up fun _ => []
  | _, stringLit s value, up => enter descend ⟨_, stringLit s value⟩ up fun _ => []
  | _, arrayLit s elements, up => enter descend ⟨_, arrayLit s elements⟩ up elements.visits
  | _, paren s expr, up => enter descend ⟨_, paren s expr⟩ up expr.visits
  | _, funcExpr s name params body, up =>
    enter descend ⟨_, funcExpr s name params body⟩ up body.visits

/-- The nodes that a part of a tree gives to the children of the node it belongs to: a node itself,
what a wrapper holds, and the nodes of a list in order. -/
def entries {shape : Shape} (tree : Tree shape) : List AnyNode :=
  (visits (fun _ => false) tree none).map (·.node)

/-- The direct children of a node in source order. -/
def children : {shape : Shape} → Tree shape → List AnyNode
  | _, program _ elements => elements.entries
  | _, funcDecl _ _ _ body => body.entries
  | _, block _ list => list.entries
  | _, varStmt _ list => list.entries
  | _, declaration _ _ init => init.entries
  | _, exprStmt _ expr => expr.entries
  | _, ifStmt _ cond yes no => cond.entries ++ yes.entries ++ no.entries
  | _, doWhile _ body cond => body.entries ++ cond.entries
  | _, whileStmt _ cond body => cond.entries ++ body.entries
  | _, forStmt _ init cond post body => init.entries ++ cond.entries ++ post.entries ++ body.entries
  | _, forVar _ decls cond post body =>
    decls.entries ++ cond.entries ++ post.entries ++ body.entries
  | _, forIn _ into object body => into.entries ++ object.entries ++ body.entries
  | _, forInVar _ decl object body => decl.entries ++ object.entries ++ body.entries
  | _, returnStmt _ value => value.entries
  | _, withStmt _ object body => object.entries ++ body.entries
  | _, labeled _ _ body => body.entries
  | _, switchStmt _ tag cases fallback trailing =>
    tag.entries ++ cases.entries ++ fallback.entries ++ trailing.entries
  | _, caseClause _ value body => value.entries ++ body.entries
  | _, defaultClause _ body => body.entries
  | _, throwStmt _ value => value.entries
  | _, tryStmt _ body handler cleanup => body.entries ++ handler.entries ++ cleanup.entries
  | _, catchClause _ _ body => body.entries
  | _, sequence _ list => list.entries
  | _, assign _ targets value => targets.entries ++ value.entries
  | _, plain _ value => value.entries
  | _, ternary _ test yes no => test.entries ++ yes.entries ++ no.entries
  | _, level _ _ head operations => head.entries ++ operations.entries
  | _, unary _ _ operand => operand.entries
  | _, update _ operand _ => operand.entries
  | _, call _ callee args modifiers => callee.entries ++ args.entries ++ modifiers.entries
  | _, newExpr _ _ base => base.entries
  | _, member _ base modifiers => base.entries ++ modifiers.entries
  | _, instantiation _ base args => base.entries ++ args.entries
  | _, arguments _ list => list.entries
  | _, index _ expr => expr.entries
  | _, arrayLit _ elements => elements.entries
  | _, paren _ expr => expr.entries
  | _, funcExpr _ _ _ body => body.entries
  | _, _ => []

/-- All nodes of a tree. -/
def nodes {shape : Shape} (tree : Tree shape) : List AnyNode :=
  (visits (fun _ => true) tree none).map (·.node)

/-- The names that one node declares or refers to. -/
def ownNames : {shape : Shape} → Tree shape → List Bytes
  | _, ident _ name => [name]
  | _, declaration _ name _ => [name]
  | _, funcDecl _ name params _ => name :: params
  | _, funcExpr _ name params _ => name.toList ++ params
  | _, catchClause _ param _ => [param]
  | _, labeled _ label _ => [label]
  | _, property _ name => [name]
  | _, _ => []

/-- The names that a tree declares or refers to, in byte order and each once. -/
def identifiers {shape : Shape} (tree : Tree shape) : List Bytes :=
  Bytes.sortedSet (tree.nodes.flatMap fun any => any.node.ownNames)

/-- The operators of a tier with their offsets. -/
def operators : {shape : Shape} → Tree shape → List (BinaryOp × Nat)
  | _, level _ _ _ operations => operations.operators
  | _, cons first rest => first.operators ++ rest.operators
  | _, operation _ op offset _ => [(op.1, offset)]
  | _, _ => []

end Tree

namespace AnyNode

/-- The children of a node that may be missing. -/
def children? : Option AnyNode → List AnyNode
  | some any => any.node.children
  | none => []

/-- All visits below a node that may be missing. -/
def visits? : Option AnyNode → List Visit
  | some any => Tree.visits (fun _ => true) any.node none
  | none => []

end AnyNode

end EcmaFold
