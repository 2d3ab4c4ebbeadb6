import EcmaFold.Proofs.Ambiguity
import EcmaFold.Proofs.Lowering.Placeholders

/-!
The order in which statements are lowered. What a program's log notes of control flow and of functions is a walk of
its tree, each node behind its children, that does not enter functions: every statement is lowered once, none is left
out, and none comes before its parts.
-/

namespace EcmaFold

namespace Tree

/-- Whether the node is a function, declared or in an expression. -/
def isFunction : {shape : Shape} → Tree shape → Bool
  | _, funcDecl .. | _, funcExpr .. => true
  | _, _ => false

theorem sizeOf_entries {shape : Shape} (tree : Tree shape) :
    ∀ any ∈ tree.entries, sizeOf any.node ≤ sizeOf tree := by
  induction tree with
  | nil => exact fun _ member => (List.not_mem_nil member).elim
  | absent => exact fun _ member => (List.not_mem_nil member).elim
  | cons node rest ihNode ihRest =>
    intro any member
    rw [entries_cons, List.mem_append] at member
    rw [cons.sizeOf_spec]
    rcases member with inNode | inRest
    · have := ihNode any inNode
      omega
    · have := ihRest any inRest
      omega
  | present _ ih => exact fun any member => Nat.le_trans (ih any member) (Nat.le_add_left _ _)
  | ofStatement _ ih => exact fun any member => Nat.le_trans (ih any member) (Nat.le_add_left _ _)
  | ofBlock _ ih => exact fun any member => Nat.le_trans (ih any member) (Nat.le_add_left _ _)
  | ofInstantiation _ ih => exact fun any member => Nat.le_trans (ih any member) (Nat.le_add_left _ _)
  | ofArguments _ ih => exact fun any member => Nat.le_trans (ih any member) (Nat.le_add_left _ _)
  | instantiated _ ih => exact fun any member => Nat.le_trans (ih any member) (Nat.le_add_left _ _)
  | target _ op ih =>
    intro any member
    have := ih any member
    rw [target.sizeOf_spec]
    omega
  | operation _ _ _ _ ih =>
    intro any member
    have := ih any member
    rw [operation.sizeOf_spec]
    omega
  | _ =>
    intro any member
    obtain rfl := List.mem_singleton.mp member
    exact Nat.le_refl _

theorem sizeOf_lt_of_entries {shape : Shape} {part : Tree shape} {any : AnyNode} (member : any ∈ part.entries)
    {n : Nat} (smaller : sizeOf part < n) : sizeOf any.node < n :=
  Nat.lt_of_le_of_lt (part.sizeOf_entries any member) smaller

/-- Children are smaller than their node. -/
theorem sizeOf_children {shape : Shape} (tree : Tree shape) :
    ∀ any ∈ tree.children, sizeOf any.node < sizeOf tree := by
  intro any member
  cases tree with
  | program | funcDecl | block | varStmt | declaration | exprStmt | returnStmt | labeled | defaultClause | throwStmt
  | catchClause | sequence | plain | unary | update | newExpr | arguments | index | arrayLit | paren | funcExpr =>
    exact sizeOf_lt_of_entries member (by simp +arith)
  | doWhile | whileStmt | withStmt | caseClause | assign | level | member | instantiation =>
    rcases List.mem_append.mp member with first | second
    · exact sizeOf_lt_of_entries first (by simp +arith)
    · exact sizeOf_lt_of_entries second (by simp +arith)
  | ifStmt | forIn | forInVar | tryStmt | ternary | call =>
    rcases List.mem_append.mp member with front | third
    · rcases List.mem_append.mp front with first | second
      · exact sizeOf_lt_of_entries first (by simp +arith)
      · exact sizeOf_lt_of_entries second (by simp +arith)
    · exact sizeOf_lt_of_entries third (by simp +arith)
  | forStmt | forVar | switchStmt =>
    rcases List.mem_append.mp member with front | fourth
    · rcases List.mem_append.mp front with front | third
      · rcases List.mem_append.mp front with first | second
        · exact sizeOf_lt_of_entries first (by simp +arith)
        · exact sizeOf_lt_of_entries second (by simp +arith)
      · exact sizeOf_lt_of_entries third (by simp +arith)
    · exact sizeOf_lt_of_entries fourth (by simp +arith)
  | _ => exact (List.not_mem_nil member).elim

end Tree

/-- The nodes below a node and the node itself, each behind its children. Functions are not entered. -/
def AnyNode.postOrder (any : AnyNode) : List AnyNode :=
  (if any.node.isFunction then [] else any.node.children.attach.flatMap fun child => postOrder child.1) ++ [any]
termination_by sizeOf any.node
decreasing_by exact any.node.sizeOf_children _ child.2

theorem AnyNode.postOrder_eq (any : AnyNode) : any.postOrder =
    (if any.node.isFunction then [] else any.node.children.flatMap postOrder) ++ [any] := by
  rw [postOrder]
  simp

/-! What the log notes of a statement -/

/-- The message is about control flow or a function declaration. -/
def LogEntry.isStatement (entry : LogEntry) : Bool :=
  entry.message ∈ [utf8 "control flow not lowered", utf8 "function declaration not lowered"]

namespace Tree

/-- The name under which a statement that needs basic blocks is noted. -/
def construct? : {shape : Shape} → Tree shape → Option String
  | _, ifStmt .. => some "if"
  | _, doWhile .. => some "do-while"
  | _, whileStmt .. => some "while"
  | _, forStmt .. | _, forVar .. => some "for"
  | _, forIn .. | _, forInVar .. => some "for-in"
  | _, continueStmt .. => some "continue"
  | _, breakStmt .. => some "break"
  | _, returnStmt .. => some "return"
  | _, withStmt .. => some "with"
  | _, switchStmt .. => some "switch"
  | _, throwStmt .. => some "throw"
  | _, tryStmt .. => some "try"
  | _, _ => none

/-- What is noted of a node: the construct of a statement or the name of a function declaration, with its place. -/
def notice? : {shape : Shape} → Tree shape → Option LogEntry
  | _, funcDecl span name _ _ => some (.function name span.start)
  | _, tree => tree.construct?.map fun construct => .controlFlow (utf8 construct) tree.span.start

end Tree

/-- What is to be noted of some nodes and the nodes below them. -/
def AnyNode.notices (nodes : List AnyNode) : List LogEntry :=
  (nodes.flatMap postOrder).filterMap fun any => any.node.notice?

@[simp] theorem AnyNode.notices_append (nodes nodes' : List AnyNode) :
    notices (nodes ++ nodes') = notices nodes ++ notices nodes' := by
  rw [notices, List.flatMap_append, List.filterMap_append]
  rfl

/-- A node is noted behind what is below it. -/
theorem AnyNode.notices_single (any : AnyNode) :
    notices [any] = (if any.node.isFunction then [] else notices any.node.children) ++ any.node.notice?.toList := by
  rw [notices, List.flatMap_cons, List.flatMap_nil, List.append_nil, postOrder_eq, List.filterMap_append]
  split <;> rfl

namespace Lowered

variable {α β : Type}

/-- What the log notes of statements. -/
def noticed (x : Lowered α) : List LogEntry := x.log.filter (·.isStatement)

theorem noticed_bind (x : Lowered α) (f : α → Lowered β) : (x >>= f).noticed = x.noticed ++ (f x.value).noticed :=
  List.filter_append _ _

theorem silent_bind {x : Lowered α} {f : α → Lowered β} (first : x.noticed = [])
    (next : (f x.value).noticed = []) : (x >>= f).noticed = [] := by
  rw [noticed_bind, first, next]
  rfl

/-- Operators note nothing of statements. -/
theorem Answers.noticed {operands : List Value} {z : Lowered Value} (answers : z.Answers operands) :
    z.noticed = [] := by
  unfold Lowered.noticed
  cases answers with
  | gives _ silent | passes _ _ silent => rw [silent]; rfl
  | notes _ noted => rw [noted]; rfl

end Lowered

namespace Lowering

open Lowered

theorem noticed_unaryOps (ops : List UnaryOp) (offset : Nat) (v : Value) : (unaryOps ops offset v).noticed = [] := by
  induction ops with
  | nil => rfl
  | cons op rest ih =>
    rw [unaryOps, noticed_bind, ih]
    exact (unaryOp_answers offset op _).noticed

end Lowering

namespace Tree

open Lowered Lowering

variable {kind : Kind} {node : Node kind}

theorem notices_node (own : node.entries = [⟨kind, node⟩]) (enters : node.isFunction = false) :
    AnyNode.notices node.entries = AnyNode.notices node.children ++ node.notice?.toList := by
  rw [own, AnyNode.notices_single, enters]
  rfl

theorem notices_silent (own : node.entries = [⟨kind, node⟩]) (enters : node.isFunction = false)
    (silent : node.notice? = none) (inside : AnyNode.notices node.children = []) :
    AnyNode.notices node.entries = [] := by
  rw [notices_node own enters, silent, inside]
  rfl

theorem notices_none_append {nodes nodes' : List AnyNode} (first : AnyNode.notices nodes = [])
    (second : AnyNode.notices nodes' = []) : AnyNode.notices (nodes ++ nodes') = [] := by
  rw [AnyNode.notices_append, first, second]
  rfl

theorem operand_isExpression (tier : Tier) : tier.operand.isExpression = true := by
  cases tier <;> rfl

/-- There are no statements in an expression but in functions, which are not entered. -/
theorem notices_expression {shape : Shape} (tree : Tree shape) (expression : shape.kind.isExpression = true) :
    AnyNode.notices tree.entries = [] := by
  induction tree with
  | nil => rfl
  | absent => rfl
  | cons head tail ihHead ihTail =>
    rw [entries_cons]
    exact notices_none_append (ihHead expression) (ihTail expression)
  | present _ ih => exact ih expression
  | target _ _ ih => exact ih rfl
  | ofInstantiation _ ih => exact ih rfl
  | instantiated _ ih => exact ih rfl
  | ofArguments _ ih => exact ih rfl
  | operation tier _ _ _ ih => exact ih (operand_isExpression tier)
  | funcExpr _ _ _ _ => exact AnyNode.notices_single _
  | declaration _ _ _ ih => exact notices_silent rfl rfl rfl (ih rfl)
  | sequence _ _ ih => exact notices_silent rfl rfl rfl (ih rfl)
  | plain _ _ ih => exact notices_silent rfl rfl rfl (ih rfl)
  | unary _ _ _ ih => exact notices_silent rfl rfl rfl (ih rfl)
  | update _ _ _ ih => exact notices_silent rfl rfl rfl (ih rfl)
  | newExpr _ _ _ ih => exact notices_silent rfl rfl rfl (ih rfl)
  | arguments _ _ ih => exact notices_silent rfl rfl rfl (ih rfl)
  | index _ _ ih => exact notices_silent rfl rfl rfl (ih rfl)
  | arrayLit _ _ ih => exact notices_silent rfl rfl rfl (ih rfl)
  | paren _ _ ih => exact notices_silent rfl rfl rfl (ih rfl)
  | assign _ _ _ ihTargets ihValue =>
    exact notices_silent rfl rfl rfl (notices_none_append (ihTargets rfl) (ihValue rfl))
  | level _ tier _ _ ihHead ihOperations =>
    exact notices_silent rfl rfl rfl (notices_none_append (ihHead (operand_isExpression tier)) (ihOperations rfl))
  | member _ _ _ ihObject ihModifiers =>
    exact notices_silent rfl rfl rfl (notices_none_append (ihObject rfl) (ihModifiers rfl))
  | instantiation _ _ _ ihObject ihArgs =>
    exact notices_silent rfl rfl rfl (notices_none_append (ihObject rfl) (ihArgs rfl))
  | ternary _ _ _ _ ihTest ihYes ihNo =>
    exact notices_silent rfl rfl rfl (notices_none_append (notices_none_append (ihTest rfl) (ihYes rfl)) (ihNo rfl))
  | call _ _ _ _ ihCallee ihArgs ihModifiers =>
    exact notices_silent rfl rfl rfl
      (notices_none_append (notices_none_append (ihCallee rfl) (ihArgs rfl)) (ihModifiers rfl))
  | property _ _ => exact notices_silent rfl rfl rfl rfl
  | thisExpr _ => exact notices_silent rfl rfl rfl rfl
  | ident _ _ => exact notices_silent rfl rfl rfl rfl
  | nullLit _ => exact notices_silent rfl rfl rfl rfl
  | boolLit _ _ => exact notices_silent rfl rfl rfl rfl
  | numberLit _ _ => exact notices_silent rfl rfl rfl rfl
  | stringLit _ _ => exact notices_silent rfl rfl rfl rfl
  | _ => cases expression

/-- Lowering an expression notes nothing of statements. -/
theorem noticed_expression {shape : Shape} (tree : Tree shape) (expression : shape.kind.isExpression = true)
    (before : Value) : (tree.lower before).noticed = [] := by
  induction tree generalizing before with
  | cons _ _ ihHead ihTail => exact silent_bind (ihHead expression _) (ihTail expression _)
  | present _ ih => exact ih expression _
  | ofInstantiation _ ih => exact ih rfl _
  | instantiated _ ih => exact ih rfl _
  | declaration _ _ _ ih => exact ih rfl _
  | sequence _ _ ih => exact ih rfl _
  | plain _ _ ih => exact ih rfl _
  | paren _ _ ih => exact ih rfl _
  | assign _ targets _ _ ihValue =>
    cases targets with
    | nil => exact ihValue rfl _
    | cons _ _ => exact silent_bind (ihValue rfl _) rfl
  | ternary span _ _ _ ihTest ihYes ihNo =>
    refine silent_bind (ihTest rfl _) (silent_bind (ihYes rfl _) (silent_bind (ihNo rfl _) ?_))
    split
    · rfl
    · exact (propagate_answers _ _ _).noticed
  | level _ tier _ _ ihHead ihOperations =>
    exact silent_bind (ihHead (operand_isExpression tier) _) (ihOperations rfl _)
  | operation tier _ _ _ ih =>
    exact silent_bind (ih (operand_isExpression tier) _) (binaryOp_answers _ _ _ _).noticed
  | unary _ _ _ ih => exact silent_bind (ih rfl _) (noticed_unaryOps _ _ _)
  | update _ _ op ih =>
    cases op with
    | none => exact silent_bind (ih rfl _) rfl
    | some _ => exact silent_bind (ih rfl _) (propagate_answers _ _ _).noticed
  | newExpr _ count _ ih =>
    cases count with
    | zero => exact ih rfl _
    | succ _ => rfl
  | member _ _ modifiers ihObject _ =>
    cases modifiers with
    | nil => exact ihObject rfl _
    | cons _ _ => rfl
  | numberLit _ value =>
    obtain ⟨_, _ | _⟩ := value <;> rfl
  | _ => first | rfl | cases expression

end Tree

namespace Lowered

variable {α β : Type} {front middle back : List LogEntry} {nodes nodes' : List AnyNode}

/-- Behind what is noted in front, the computation adds up to what is noted at the back. -/
def Notes (front back : List LogEntry) (x : Lowered α) : Prop := front ++ x.noticed = back

theorem Notes.bind {x : Lowered α} {f : α → Lowered β} (first : x.Notes front middle)
    (next : (f x.value).Notes middle back) : (x >>= f).Notes front back := by
  unfold Notes at first next ⊢
  rw [noticed_bind, ← List.append_assoc, first, next]

theorem Notes.first {x : Lowered α} (same : x.noticed = AnyNode.notices nodes) : x.Notes [] (AnyNode.notices nodes) :=
  same

theorem Notes.next {x : Lowered α} (same : x.noticed = AnyNode.notices nodes') :
    x.Notes (AnyNode.notices nodes) (AnyNode.notices (nodes ++ nodes')) := by
  rw [AnyNode.notices_append, ← same]
  rfl

theorem Notes.behind {x : Lowered α} (nothing : AnyNode.notices nodes = [])
    (same : x.noticed = AnyNode.notices nodes') : x.Notes [] (AnyNode.notices (nodes ++ nodes')) := by
  rw [← nothing]
  exact .next same

theorem notes_controlFlow (construct : String) (offset : Nat) :
    (controlFlow construct offset).Notes front (front ++ [.controlFlow (utf8 construct) offset]) := rfl

end Lowered

namespace Tree

open Lowered

variable {kind : Kind} {node : Node kind} {before : Value}

theorem noticed_node (own : node.entries = [⟨kind, node⟩]) (enters : node.isFunction = false)
    (notes : (node.lower before).Notes [] (AnyNode.notices node.children ++ node.notice?.toList)) :
    (node.lower before).noticed = AnyNode.notices node.entries := by
  rw [notices_node own enters]
  exact notes

theorem noticed_silent (own : node.entries = [⟨kind, node⟩]) (enters : node.isFunction = false)
    (silent : node.notice? = none) (notes : (node.lower before).Notes [] (AnyNode.notices node.children)) :
    (node.lower before).noticed = AnyNode.notices node.entries := by
  rw [notices_node own enters, silent]
  exact notes.trans (List.append_nil _).symm

/-- What is noted is what is to be noted, in this order: the parts of a statement are lowered as they stand, each once,
and only parts without statements are left out. -/
theorem noticed_lower {shape : Shape} (tree : Tree shape) (before : Value) :
    (tree.lower before).noticed = AnyNode.notices tree.entries := by
  induction tree generalizing before with
  | nil => rfl
  | absent => rfl
  | cons head tail ihHead ihTail =>
    rw [entries_cons]
    exact Notes.bind (.first (ihHead _)) (.next (ihTail _))
  | present _ ih => exact ih _
  | ofStatement _ ih => exact ih _
  | ofBlock _ ih => exact ih _
  | program _ _ ih => exact noticed_silent rfl rfl rfl (.first (ih _))
  | block _ _ ih => exact noticed_silent rfl rfl rfl (.first (ih _))
  | varStmt _ _ ih => exact noticed_silent rfl rfl rfl (.first (ih _))
  | exprStmt _ _ ih => exact noticed_silent rfl rfl rfl (.first (ih _))
  | labeled _ _ _ ih => exact noticed_silent rfl rfl rfl (.first (ih _))
  | defaultClause _ _ ih => exact noticed_silent rfl rfl rfl (.first (ih _))
  | catchClause _ _ _ ih => exact noticed_silent rfl rfl rfl (.first (ih _))
  | caseClause _ _ _ ihValue ihBody =>
    exact noticed_silent rfl rfl rfl (.bind (.first (ihValue _)) (.next (ihBody _)))
  | funcDecl span own params body _ => exact (AnyNode.notices_single ⟨_, funcDecl span own params body⟩).symm
  | emptyStmt _ => exact noticed_silent rfl rfl rfl rfl
  | debugger _ => exact noticed_silent rfl rfl rfl rfl
  | ifStmt _ _ _ _ ihCond ihYes ihNo =>
    exact noticed_node rfl rfl
      (.bind (.first (ihCond _)) (.bind (.next (ihYes _)) (.bind (.next (ihNo _)) (notes_controlFlow _ _))))
  | doWhile _ _ _ ihBody ihCond =>
    exact noticed_node rfl rfl (.bind (.first (ihBody _)) (.bind (.next (ihCond _)) (notes_controlFlow _ _)))
  | whileStmt _ _ _ ihCond ihBody =>
    exact noticed_node rfl rfl (.bind (.first (ihCond _)) (.bind (.next (ihBody _)) (notes_controlFlow _ _)))
  | forStmt _ _ _ _ _ ihInit ihCond ihPost ihBody =>
    exact noticed_node rfl rfl (.bind (.first (ihInit _)) (.bind (.next (ihCond _)) (.bind (.next (ihPost _))
      (.bind (.next (ihBody _)) (notes_controlFlow _ _)))))
  | forVar _ _ _ _ _ ihDecls ihCond ihPost ihBody =>
    exact noticed_node rfl rfl (.bind (.first (ihDecls _)) (.bind (.next (ihCond _)) (.bind (.next (ihPost _))
      (.bind (.next (ihBody _)) (notes_controlFlow _ _)))))
  | forIn _ into _ _ _ ihObject ihBody =>
    -- What is assigned to is not lowered.
    exact noticed_node rfl rfl (.bind (.behind (into.notices_expression rfl) (ihObject _))
      (.bind (.next (ihBody _)) (notes_controlFlow _ _)))
  | forInVar _ _ _ _ ihDecl ihObject ihBody =>
    exact noticed_node rfl rfl
      (.bind (.first (ihDecl _)) (.bind (.next (ihObject _)) (.bind (.next (ihBody _)) (notes_controlFlow _ _))))
  | continueStmt _ _ => exact noticed_node rfl rfl rfl
  | breakStmt _ _ => exact noticed_node rfl rfl rfl
  | returnStmt _ _ ih => exact noticed_node rfl rfl (.bind (.first (ih _)) (notes_controlFlow _ _))
  | withStmt _ _ _ ihObject ihBody =>
    exact noticed_node rfl rfl (.bind (.first (ihObject _)) (.bind (.next (ihBody _)) (notes_controlFlow _ _)))
  | switchStmt _ _ _ _ _ ihTag ihCases ihFallback ihTrailing =>
    exact noticed_node rfl rfl (.bind (.first (ihTag _)) (.bind (.next (ihCases _)) (.bind (.next (ihFallback _))
      (.bind (.next (ihTrailing _)) (notes_controlFlow _ _)))))
  | throwStmt _ _ ih => exact noticed_node rfl rfl (.bind (.first (ih _)) (notes_controlFlow _ _))
  | tryStmt _ _ _ _ ihBody ihHandler ihCleanup =>
    exact noticed_node rfl rfl
      (.bind (.first (ihBody _)) (.bind (.next (ihHandler _)) (.bind (.next (ihCleanup _)) (notes_controlFlow _ _))))
  | _ => rw [notices_expression _ rfl, noticed_expression _ rfl]

end Tree

namespace Program

/-- Instructions are no statements. -/
theorem filter_traceLog (trace : Trace) : (traceLog trace).filter (·.isStatement) = [] := by
  refine List.filter_eq_nil_iff.mpr fun entry member => ?_
  obtain ⟨_, _, rfl⟩ := List.mem_map.mp member
  exact Bool.false_ne_true

/-- Every statement is lowered once and in order: what the log of a program notes of control flow and of functions
is what is to be noted of its nodes, each behind its children, and functions are not entered. -/
theorem lowerAfter_statements (program : Program) (recorded : Nat) (withTrace : Bool) :
    (fullLog (program.lowerAfter recorded) withTrace).filter (·.isStatement) =
      (AnyNode.postOrder ⟨_, program.tree⟩).filterMap fun any => any.node.notice? := by
  have own : program.tree.entries = [⟨_, program.tree⟩] := by
    obtain ⟨_, _, tree⟩ := program
    cases tree
    rfl
  have lowered := program.tree.noticed_lower .void
  rw [own, AnyNode.notices, List.flatMap_cons, List.flatMap_nil, List.append_nil] at lowered
  have traced : (if withTrace then traceLog (program.lowerAfter recorded).trace else []).filter (·.isStatement) =
      [] := by
    split
    · exact filter_traceLog _
    · rfl
  rw [← lowered, fullLog, List.filter_append, traced, List.append_nil]
  exact (List.filter_append _ _).trans (List.append_nil _)

end Program

end EcmaFold
