import EcmaFold.Proofs.Parser.Follow
import EcmaFold.Proofs.SourceAnswers
import EcmaFold.Proofs.TokenSequence
import Mathlib.Logic.Relation

/-!
How a program is read where its text alone leaves a choice. An `else` belongs to the nearest `if` without one, an `in`
behind the initialisation of a loop belongs to the loop, and a statement that begins with `function` is a declaration.
-/

namespace EcmaFold

/-- The kinds that lie between an initialisation and what brackets hold in it. -/
def Kind.isExpression : Kind → Bool
  | program | element | statement | block | caseClause | defaultClause | catchClause => false
  | _ => true

/-- The expressions that hold operators with two operands only in brackets. -/
def Kind.isOperand : Kind → Bool
  | unary | update | lhs | member | instantiation | primary | arguments | modifier _ | target => true
  | _ => false

namespace Tree

/-! Statements at the end of a statement -/

/-- The first statement ends in the second one: that is its body or its `else` branch, or so does one of these. -/
inductive EndsIn : Node .statement → Node .statement → Prop where
  | here (statement : Node .statement) : EndsIn statement statement
  | ifStmt {span : Span} {cond : Node .sequence} {yes no last : Node .statement} (ends : EndsIn no last) :
      EndsIn (ifStmt span cond yes (present no)) last
  | whileStmt {span : Span} {cond : Node .sequence} {body last : Node .statement} (ends : EndsIn body last) :
      EndsIn (whileStmt span cond body) last
  | forStmt {span : Span} {init cond post : Tree (.optional .sequence)} {body last : Node .statement}
      (ends : EndsIn body last) : EndsIn (forStmt span init cond post body) last
  | forVar {span : Span} {decls : Tree (.list .declaration)} {cond post : Tree (.optional .sequence)}
      {body last : Node .statement} (ends : EndsIn body last) : EndsIn (forVar span decls cond post body) last
  | forIn {span : Span} {into : Node .lhs} {object : Node .sequence} {body last : Node .statement}
      (ends : EndsIn body last) : EndsIn (forIn span into object body) last
  | forInVar {span : Span} {decl : Node .declaration} {object : Node .sequence} {body last : Node .statement}
      (ends : EndsIn body last) : EndsIn (forInVar span decl object body) last
  | withStmt {span : Span} {object : Node .sequence} {body last : Node .statement} (ends : EndsIn body last) :
      EndsIn (withStmt span object body) last
  | labeled {span : Span} {label : Bytes} {body last : Node .statement} (ends : EndsIn body last) :
      EndsIn (labeled span label body) last

/-- An `if` without an `else`. -/
def lacksElse : {shape : Shape} → Tree shape → Bool
  | _, ifStmt _ _ _ absent => true
  | _, _ => false

/-- A statement is open if it ends in an `if` without an `else`. -/
theorem EndsIn.isOpen {statement last : Node .statement} (ends : EndsIn statement last)
    (lacks : last.lacksElse = true) : statement.isOpen = true := by
  induction ends with
  | here statement =>
    cases statement with
    | ifStmt span cond yes no =>
      cases no with
      | absent => rfl
      | present no => cases lacks
    | _ => cases lacks
  | _ ends ih => exact ih lacks

/-! Operators outside of brackets -/

/-- The children of a node that no brackets, no function and no middle of a conditional keep apart from it. -/
def openChildren : {shape : Shape} → Tree shape → List AnyNode
  | _, paren .. | _, index .. | _, arguments .. | _, arrayLit .. | _, funcExpr .. | _, funcDecl .. => []
  | _, ternary _ test _ no => test.entries ++ no.entries
  | _, node => node.children

/-- No operator `in` is reached from the part without going through what keeps operators apart. -/
def InApart {shape : Shape} (part : Tree shape) : Prop :=
  ∀ first ∈ part.entries, ∀ any, Relation.ReflTransGen (fun up down => down ∈ up.node.openChildren) first any →
    ∀ operator ∈ any.node.operators, operator.1 ≠ .isIn

theorem isInFree_of_isOperand {shape : Shape} (tree : Tree shape) (isOperand : shape.kind.isOperand = true) :
    tree.isInFree = true := by
  induction tree with
  | cons node rest ih ih' =>
    exact Bool.and_eq_true_iff.mpr ⟨ih isOperand, ih' isOperand⟩
  | present node ih => exact ih isOperand
  | declaration | sequence | assign | plain | ternary | level | operation => cases isOperand
  | _ => rfl

/-- No operator of the tree itself is `in`. -/
theorem operators_of_isInFree {shape : Shape} (tree : Tree shape) (free : tree.isInFree = true) :
    ∀ operator ∈ tree.operators, operator.1 ≠ .isIn := by
  induction tree with
  | cons node rest ih ih' =>
    obtain ⟨first, more⟩ := Bool.and_eq_true_iff.mp free
    exact List.forall_mem_append.mpr ⟨ih first, ih' more⟩
  | level span tier head operations _ ih => exact ih (Bool.and_eq_true_iff.mp free).2
  | operation tier op offset operand =>
    exact List.forall_mem_singleton.mpr (of_decide_eq_true (Bool.and_eq_true_iff.mp free).1)
  | _ => exact List.forall_mem_nil _

end Tree

namespace AnyNode

open EcmaFold.Tree

/-- An expression without operators `in` outside of brackets. -/
def InFree (any : AnyNode) : Prop := any.kind.isExpression = true ∧ any.node.isInFree = true

/-- What a part without such operators gives to the children has none. -/
theorem inFree_entries {shape : Shape} (tree : Tree shape) (isExpression : shape.kind.isExpression = true)
    (free : tree.isInFree = true) : ∀ any ∈ tree.entries, any.InFree := by
  induction tree with
  | nil | absent => exact List.forall_mem_nil _
  | cons node rest ih ih' =>
    obtain ⟨first, more⟩ := Bool.and_eq_true_iff.mp free
    rw [entries_cons]
    exact List.forall_mem_append.mpr ⟨ih isExpression first, ih' isExpression more⟩
  | present node ih => exact ih isExpression free
  | ofStatement | ofBlock => cases isExpression
  | operation tier op offset operand ih =>
    exact ih (by cases tier <;> rfl) (Bool.and_eq_true_iff.mp free).2
  | target node op ih | ofInstantiation node ih | ofArguments node ih | instantiated node ih =>
    exact ih rfl (isInFree_of_isOperand node rfl)
  | _ => exact List.forall_mem_singleton.mpr ⟨isExpression, free⟩

/-- A step to a child that nothing keeps apart. -/
theorem InFree.step {any child : AnyNode} (free : any.InFree) (member : child ∈ any.node.openChildren) :
    child.InFree := by
  obtain ⟨kind, node⟩ := any
  obtain ⟨isExpression, free⟩ := free
  revert child
  -- What holds operators is free of `in` because the node is, and everything else is by its kind.
  have operand {shape : Shape} (part : Tree shape) (isOperand : shape.kind.isOperand = true)
      (isExpression : shape.kind.isExpression = true) : ∀ any ∈ part.entries, any.InFree :=
    inFree_entries part isExpression (isInFree_of_isOperand part isOperand)
  cases node with
  | declaration _ _ part | sequence _ part | plain _ part => exact inFree_entries part rfl free
  | assign _ targets value => exact List.forall_mem_append.mpr ⟨operand targets rfl rfl, inFree_entries value rfl free⟩
  | ternary _ test _ no =>
    obtain ⟨freeTest, freeNo⟩ := Bool.and_eq_true_iff.mp free
    exact List.forall_mem_append.mpr ⟨inFree_entries test rfl freeTest, inFree_entries no rfl freeNo⟩
  | level _ tier head operations =>
    obtain ⟨freeHead, freeOperations⟩ := Bool.and_eq_true_iff.mp free
    refine List.forall_mem_append.mpr ⟨inFree_entries head ?_ freeHead, inFree_entries operations rfl freeOperations⟩
    cases tier <;> rfl
  | unary _ _ part | update _ part _ | newExpr _ _ part => exact operand part rfl rfl
  | call _ callee args modifiers =>
    refine List.forall_mem_append.mpr ⟨?_, operand modifiers rfl rfl⟩
    exact List.forall_mem_append.mpr ⟨operand callee rfl rfl, operand args rfl rfl⟩
  | member _ object modifiers => exact List.forall_mem_append.mpr ⟨operand object rfl rfl, operand modifiers rfl rfl⟩
  | instantiation _ object args => exact List.forall_mem_append.mpr ⟨operand object rfl rfl, operand args rfl rfl⟩
  | _ => first | exact List.forall_mem_nil _ | cases isExpression

/-- Nothing that is reached without going through what keeps operators apart has an operator `in`. -/
theorem InFree.reached {first any : AnyNode} (free : first.InFree)
    (reach : Relation.ReflTransGen (fun up down => down ∈ up.node.openChildren) first any) : any.InFree := by
  induction reach with
  | refl => exact free
  | tail _ member ih => exact ih.step member

theorem inApart_of_isInFree {shape : Shape} {part : Tree shape} (isExpression : shape.kind.isExpression = true)
    (free : part.isInFree = true) : part.InApart :=
  fun first member any reach =>
    operators_of_isInFree any.node ((inFree_entries part isExpression free first member).reached reach).2

end AnyNode

namespace Tree

/-- How a node resolves what its text leaves open. The `if` statements that a branch in front of an `else` ends in have
an `else` of their own, what a loop is initialised with is kept apart from `in`, and an expression statement does not
begin with `function`. -/
def Resolved (source : Bytes) : (shape : Shape) → Tree shape → Prop
  | _, ifStmt _ _ yes (present _) => ∀ last, EndsIn yes last → last.lacksElse = false
  | _, forStmt _ init _ _ _ => init.InApart
  | _, forVar _ decls _ _ _ => decls.InApart
  | _, forIn _ into _ _ => into.InApart
  | _, forInVar _ decl _ _ => decl.InApart
  | _, exprStmt span _ => (Token.read (source.drop span.start)).1 ≠ .keyword .kwFunction
  | _, _ => True

theorem Proper.resolved {source : Bytes} {shape : Shape} {node : Tree shape} (proper : node.Proper shape)
    (attested : node.Attested source shape) : node.Resolved source shape := by
  cases node with
  | ifStmt span cond yes no =>
    cases no with
    | absent => trivial
    | present no =>
      intro last ends
      by_contra lacks
      have isOpen := ends.isOpen (Bool.not_eq_false _ ▸ lacks)
      rw [proper rfl] at isOpen
      cases isOpen
  | forStmt span init cond post body => exact AnyNode.inApart_of_isInFree rfl proper
  | forVar span decls cond post body => exact AnyNode.inApart_of_isInFree rfl proper.2
  | forInVar span decl object body => exact AnyNode.inApart_of_isInFree rfl proper
  | forIn span into object body => exact AnyNode.inApart_of_isInFree rfl (isInFree_of_isOperand into rfl)
  | exprStmt span expr =>
    obtain ⟨lexeme, -, stands, starts, other⟩ := attested
    change (Token.read (source.drop span.start)).1 ≠ _
    rwa [← starts, stands.reads]
  | _ => trivial

end Tree

namespace Program

open EcmaFold.Tree

/-- Every node of a program that is accepted resolves what its text leaves open. -/
theorem nodes_resolved {file source : Bytes} {program : Program} (accepted : parse file source = .ok program) :
    ∀ any ∈ program.tree.nodes, any.node.Resolved source _ :=
  fun any member => (all_iff_nodes.mp (parse_covers accepted).1 any member).resolved
    (all_iff_nodes.mp (parse_faithful accepted) any member)

/-- In `if (a) if (b) ; else c; else d; for (var i = (x in y) in z) ;`, the first `if` has its `else` behind another
one, and the loop its `in`. -/
theorem nodes_resolved_nested :
    ∃ program, parse [] (utf8 "if (a) if (b) ; else c; else d; for (var i = (x in y) in z) ;") = .ok program ∧
      ∀ span ∈ [⟨0, 31⟩, ⟨32, 61⟩], ∃ any ∈ program.tree.nodes, any.kind = .statement ∧ any.node.span = span ∧
        any.node.Resolved (utf8 "if (a) if (b) ; else c; else d; for (var i = (x in y) in z) ;") _ := by
  have complete : (readPart
      (utf8 "if (a) if (b) ; else c; else d; for (var i = (x in y) in z) ;")).complete = true := by decide +kernel
  have found : ∀ span ∈ [Span.mk 0 31, ⟨32, 61⟩],
      ∃ any ∈ (readPart (utf8 "if (a) if (b) ; else c; else d; for (var i = (x in y) in z) ;")).tree.nodes,
        any.kind = .statement ∧ any.node.span = span := by decide +kernel
  have accepted := @parse_of_complete [] _ complete
  refine ⟨_, accepted, fun span among => ?_⟩
  obtain ⟨any, member, isStatement, place⟩ := found span among
  exact ⟨any, member, isStatement, place, nodes_resolved accepted any member⟩

end Program

end EcmaFold
