import EcmaFold.Proofs.Tree.Yield

/-!
Trees that the grammar can read back. The type of trees already says which nodes go where; what is left are
conditions on lists, names and literals, and those by which the grammar settles what could be read in two ways.
-/

namespace EcmaFold

namespace Tree

/-- A property of every node of a tree. -/
def All (P : (shape : Shape) → Tree shape → Prop) : {shape : Shape} → Tree shape → Prop
  | _, nil | _, absent => True
  | _, cons node rest => node.All P ∧ rest.All P
  | _, present node => node.All P
  | _, program s elements => P _ (program s elements) ∧ elements.All P
  | _, funcDecl s own params body => P _ (funcDecl s own params body) ∧ body.All P
  | _, ofStatement node => node.All P
  | _, ofBlock node => node.All P
  | _, block s list => P _ (block s list) ∧ list.All P
  | _, varStmt s list => P _ (varStmt s list) ∧ list.All P
  | _, declaration s own init => P _ (declaration s own init) ∧ init.All P
  | _, emptyStmt s => P _ (emptyStmt s)
  | _, exprStmt s expr => P _ (exprStmt s expr) ∧ expr.All P
  | _, ifStmt s cond yes no => P _ (ifStmt s cond yes no) ∧ cond.All P ∧ yes.All P ∧ no.All P
  | _, doWhile s body cond => P _ (doWhile s body cond) ∧ body.All P ∧ cond.All P
  | _, whileStmt s cond body => P _ (whileStmt s cond body) ∧ cond.All P ∧ body.All P
  | _, forStmt s init cond post body =>
    P _ (forStmt s init cond post body) ∧ init.All P ∧ cond.All P ∧ post.All P ∧ body.All P
  | _, forVar s decls cond post body =>
    P _ (forVar s decls cond post body) ∧ decls.All P ∧ cond.All P ∧ post.All P ∧ body.All P
  | _, forIn s into object body => P _ (forIn s into object body) ∧ into.All P ∧ object.All P ∧ body.All P
  | _, forInVar s decl object body =>
    P _ (forInVar s decl object body) ∧ decl.All P ∧ object.All P ∧ body.All P
  | _, continueStmt s label => P _ (continueStmt s label)
  | _, breakStmt s label => P _ (breakStmt s label)
  | _, returnStmt s value => P _ (returnStmt s value) ∧ value.All P
  | _, withStmt s object body => P _ (withStmt s object body) ∧ object.All P ∧ body.All P
  | _, labeled s label body => P _ (labeled s label body) ∧ body.All P
  | _, switchStmt s tag cases fallback trailing =>
    P _ (switchStmt s tag cases fallback trailing) ∧ tag.All P ∧ cases.All P ∧ fallback.All P ∧ trailing.All P
  | _, caseClause s value body => P _ (caseClause s value body) ∧ value.All P ∧ body.All P
  | _, defaultClause s body => P _ (defaultClause s body) ∧ body.All P
  | _, throwStmt s value => P _ (throwStmt s value) ∧ value.All P
  | _, tryStmt s body handler cleanup =>
    P _ (tryStmt s body handler cleanup) ∧ body.All P ∧ handler.All P ∧ cleanup.All P
  | _, catchClause s param body => P _ (catchClause s param body) ∧ body.All P
  | _, debugger s => P _ (debugger s)
  | _, sequence s list => P _ (sequence s list) ∧ list.All P
  | _, assign s targets value => P _ (assign s targets value) ∧ targets.All P ∧ value.All P
  | _, target node _ => node.All P
  | _, plain s value => P _ (plain s value) ∧ value.All P
  | _, ternary s test yes no => P _ (ternary s test yes no) ∧ test.All P ∧ yes.All P ∧ no.All P
  | _, level s tier head operations => P _ (level s tier head operations) ∧ head.All P ∧ operations.All P
  | _, operation _ _ _ operand => operand.All P
  | _, unary s ops operand => P _ (unary s ops operand) ∧ operand.All P
  | _, update s operand op => P _ (update s operand op) ∧ operand.All P
  | _, call s callee args modifiers =>
    P _ (call s callee args modifiers) ∧ callee.All P ∧ args.All P ∧ modifiers.All P
  | _, newExpr s count object => P _ (newExpr s count object) ∧ object.All P
  | _, member s object modifiers => P _ (member s object modifiers) ∧ object.All P ∧ modifiers.All P
  | _, ofInstantiation node => node.All P
  | _, instantiation s object args => P _ (instantiation s object args) ∧ object.All P ∧ args.All P
  | _, arguments s list => P _ (arguments s list) ∧ list.All P
  | _, ofArguments node => node.All P
  | _, @index calls s expr => P _ (@index calls s expr) ∧ expr.All P
  | _, @property calls s own => P _ (@property calls s own)
  | _, thisExpr s => P _ (thisExpr s)
  | _, ident s own => P _ (ident s own)
  | _, nullLit s => P _ (nullLit s)
  | _, boolLit s value => P _ (boolLit s value)
  | _, numberLit s value => P _ (numberLit s value)
  | _, stringLit s value => P _ (stringLit s value)
  | _, arrayLit s elements => P _ (arrayLit s elements) ∧ elements.All P
  | _, paren s expr => P _ (paren s expr) ∧ expr.All P
  | _, funcExpr s own params body => P _ (funcExpr s own params body) ∧ body.All P
  | _, instantiated node => node.All P

-- The equations are derived here, once, and not again by each proof that uses them.
attribute [local simp] All

/-- A walk meets the nodes of the tree and no others. -/
theorem forall_visits {P : (shape : Shape) → Tree shape → Prop} {shape : Shape} (tree : Tree shape)
    (up : Option AnyNode) : (∀ visit ∈ tree.visits (fun _ => true) up, P _ visit.node.node) ↔ tree.All P := by
  induction tree generalizing up with
  | _ =>
    simp only [All, visits, enter, if_true, List.forall_mem_cons, List.forall_mem_append, List.not_mem_nil,
      false_imp_iff, implies_true, and_true, and_assoc, *]

theorem all_iff_nodes {P : (shape : Shape) → Tree shape → Prop} {shape : Shape} {tree : Tree shape} :
    tree.All P ↔ ∀ any ∈ tree.nodes, P _ any.node := by
  rw [← tree.forall_visits none, nodes, List.forall_mem_map]

/-- What holds of all nodes of a tree holds of all nodes of each of its parts. -/
theorem all_all {P : (shape : Shape) → Tree shape → Prop} {shape : Shape} {tree : Tree shape} (all : tree.All P) :
    tree.All fun _ part => part.All P := by
  induction tree with
  | _ => simp_all only [All, and_self]

theorem entries_cons {kind : Kind} (node : Node kind) (rest : Tree (.list kind)) :
    (cons node rest).entries = node.entries ++ rest.entries := List.map_append

/-- What can be decided of one node can be decided of all nodes of a tree. -/
instance {P : (shape : Shape) → Tree shape → Prop} [∀ (shape : Shape) (tree : Tree shape), Decidable (P shape tree)]
    {shape : Shape} (tree : Tree shape) : Decidable (tree.All P) :=
  decidable_of_iff _ all_iff_nodes.symm

theorem all_ofList {P : (shape : Shape) → Tree shape → Prop} {kind : Kind} {list : List (Node kind)} :
    (ofList list).All P ↔ ∀ node ∈ list, node.All P := by
  induction list with
  | nil => exact ⟨fun _ _ member => (List.not_mem_nil member).elim, fun _ => trivial⟩
  | cons head tail ih =>
    rw [List.forall_mem_cons, ← ih]
    exact Iff.rfl

/-- Whether an `else` behind the statement would belong to a part of it: it ends in an `if` without one. -/
def isOpen : {shape : Shape} → Tree shape → Bool
  | _, ifStmt _ _ _ absent => true
  | _, ifStmt _ _ _ (present no) => no.isOpen
  | _, whileStmt _ _ body | _, forStmt _ _ _ _ body | _, forVar _ _ _ _ body | _, forIn _ _ _ body
  | _, forInVar _ _ _ body | _, withStmt _ _ body | _, labeled _ _ body => body.isOpen
  | _, _ => false

/-- Whether no operator `in` occurs in an initialisation, except where brackets or the middle of a
conditional keep it apart. The operands of unary operators hold operators only in brackets. -/
def isInFree : {shape : Shape} → Tree shape → Bool
  | _, cons node rest => node.isInFree && rest.isInFree
  | _, present node => node.isInFree
  | _, declaration _ _ init => init.isInFree
  | _, sequence _ list => list.isInFree
  | _, assign _ _ value => value.isInFree
  | _, plain _ value => value.isInFree
  | _, ternary _ test _ no => test.isInFree && no.isInFree
  | _, level _ _ first operations => first.isInFree && operations.isInFree
  | _, operation _ op _ operand => op.1 ≠ .isIn && operand.isInFree
  | _, _ => true

/-- Whether a list holds nothing. -/
def isNil : {shape : Shape} → Tree shape → Bool
  | _, nil => true
  | _, _ => false

/-- Whether nothing is there. -/
def isAbsent : {shape : Shape} → Tree shape → Bool
  | _, absent => true
  | _, _ => false

theorem isNil_ofList {kind : Kind} {list : List (Node kind)} (nonempty : list ≠ []) :
    (ofList list).isNil = false := by
  cases list with
  | nil => exact absurd rfl nonempty
  | cons _ _ => rfl

theorem isInFree_ofList {kind : Kind} {list : List (Node kind)} :
    (ofList list).isInFree = true ↔ ∀ node ∈ list, node.isInFree = true := by
  induction list with
  | nil => exact ⟨fun _ _ member => (List.not_mem_nil member).elim, fun _ => rfl⟩
  | cons head tail ih =>
    rw [List.forall_mem_cons, ← ih]
    exact Bool.and_eq_true_iff

/-- Whether the node is an instantiation. -/
def isInstantiated : {shape : Shape} → Tree shape → Bool
  | _, instantiated _ => true
  | _, _ => false

/-- What the grammar asks of one node beyond its type, but for the spelling of strings. -/
def Proper : (shape : Shape) → Tree shape → Prop
  | _, funcDecl _ own params _ => Name.identifier? own = some own ∧ ∀ n ∈ params, Name.identifier? n = some n
  | _, varStmt _ list => list.isNil = false
  | _, declaration _ own _ => Name.identifier? own = some own
  -- A function at the beginning would be a declaration.
  | _, exprStmt _ expr => expr.tokens.head? ≠ some (.keyword .kwFunction)
  | _, ifStmt _ _ yes no => no.isAbsent = false → yes.isOpen = false
  | _, forStmt _ init _ _ _ => init.isInFree = true
  | _, forVar _ decls _ _ _ => decls.isNil = false ∧ decls.isInFree = true
  | _, forInVar _ decl _ _ => decl.isInFree = true
  | _, continueStmt _ label => ∀ n ∈ label, Name.identifier? n = some n
  | _, breakStmt _ label => ∀ n ∈ label, Name.identifier? n = some n
  | _, labeled _ label _ => Name.identifier? label = some label
  | _, switchStmt _ _ _ fallback trailing => fallback.isAbsent = true → trailing.isNil = true
  | _, tryStmt _ _ handler cleanup => handler.isAbsent = false ∨ cleanup.isAbsent = false
  | _, catchClause _ param _ => Name.identifier? param = some param
  | _, sequence _ list => list.isNil = false
  -- Without an access behind it, an instantiation is a member expression by itself.
  | _, member _ object modifiers => object.isInstantiated = true → modifiers.isNil = false
  | _, property _ own => Name.read? own = some own
  | _, ident _ own => Name.identifier? own = some own
  | _, numberLit _ value => Number.read? value.raw = some value
  | _, funcExpr _ own params _ =>
    (∀ n ∈ own, Name.identifier? n = some n) ∧ ∀ n ∈ params, Name.identifier? n = some n
  | _, _ => True

/-- A string is valid UTF-8. -/
def ValidString : (shape : Shape) → Tree shape → Prop
  | _, stringLit _ value => Utf8.isValid value = true
  | _, _ => True

instance (shape : Shape) (tree : Tree shape) : Decidable (ValidString shape tree) := by
  unfold ValidString
  split <;> infer_instance

/-- No array stands here. -/
def NoArray : (shape : Shape) → Tree shape → Prop
  | _, arrayLit .. => False
  | _, _ => True

/-- A tree that the grammar can read back from its normalised source. -/
def WellFormed {shape : Shape} (tree : Tree shape) : Prop := tree.All Proper ∧ tree.All ValidString

end Tree

/-- A name or a number is spelled as the lexical rules spell it. -/
def Token.Clean : Token → Prop
  | number value => Number.read? value.raw = some value
  | name spelling => Name.identifier? spelling = some spelling
  | _ => True

/-- A token of the vocabulary, neither stray nor the end. -/
def Token.IsOrdinary : Token → Prop
  | stray _ | ending => False
  | _ => True

@[simp] theorem Token.number_isOrdinary (value : Number) : (Token.number value).IsOrdinary := trivial

@[simp] theorem Token.string_isOrdinary (value : Bytes) : (Token.string value).IsOrdinary := trivial

@[simp] theorem AssignOp.token_isOrdinary (op : AssignOp) : op.token.IsOrdinary := by
  cases op <;> trivial

@[simp] theorem BinaryOp.token_isOrdinary (op : BinaryOp) : op.token.IsOrdinary := by
  cases op <;> trivial

@[simp] theorem UnaryOp.token_isOrdinary (op : UnaryOp) : op.token.IsOrdinary := by
  cases op <;> trivial

@[simp] theorem UpdateOp.token_isOrdinary (op : UpdateOp) : op.token.IsOrdinary := by
  cases op <;> trivial

@[simp] theorem Token.ofName_isOrdinary (own : Bytes) : (Token.ofName own).IsOrdinary := by
  unfold ofName
  split <;> trivial

namespace Slot

/-- Every slot holds an ordinary token, and commas can be left out only if `arrays` says so. -/
def Plain (arrays : Prop) (slots : List Slot) : Prop :=
  ∀ slot ∈ slots, match slot with
    | token t => t.IsOrdinary
    | sameLine => True
    | elision => arrays

variable {arrays : Prop}

@[simp] theorem plain_nil : Plain arrays [] := List.forall_mem_nil _

@[simp] theorem plain_token {t : Token} {slots : List Slot} :
    Plain arrays (token t :: slots) ↔ t.IsOrdinary ∧ Plain arrays slots := List.forall_mem_cons

@[simp] theorem plain_punct {p : Punct} {slots : List Slot} :
    Plain arrays (punct p :: slots) ↔ Plain arrays slots := plain_token.trans (and_iff_right trivial)

@[simp] theorem plain_word {w : Word} {slots : List Slot} :
    Plain arrays (word w :: slots) ↔ Plain arrays slots := plain_token.trans (and_iff_right trivial)

@[simp] theorem plain_name {n : Bytes} {slots : List Slot} :
    Plain arrays (name n :: slots) ↔ Plain arrays slots := plain_token.trans (and_iff_right trivial)

@[simp] theorem plain_sameLine {slots : List Slot} :
    Plain arrays (sameLine :: slots) ↔ Plain arrays slots := List.forall_mem_cons.trans (and_iff_right trivial)

@[simp] theorem plain_elision {slots : List Slot} :
    Plain arrays (elision :: slots) ↔ arrays ∧ Plain arrays slots := List.forall_mem_cons

@[simp] theorem plain_append {slots slots' : List Slot} :
    Plain arrays (slots ++ slots') ↔ Plain arrays slots ∧ Plain arrays slots' := List.forall_mem_append

@[simp] theorem plain_flatten {parts : List (List Slot)} :
    Plain arrays parts.flatten ↔ ∀ part ∈ parts, Plain arrays part := by
  induction parts with
  | nil => simp
  | cons part rest ih => simp [ih]

@[simp] theorem plain_flatMap_cons {slot : Slot} {parts : List (List Slot)} :
    Plain arrays (parts.flatMap (slot :: ·)) ↔ ∀ part ∈ parts, Plain arrays (slot :: part) := by
  induction parts with
  | nil => simp
  | cons part rest ih => rw [List.flatMap_cons, plain_append, ih, List.forall_mem_cons]

@[simp] theorem plain_unaryOps {ops : List UnaryOp} : Plain arrays (ops.map fun op => token op.token) := by
  induction ops with
  | nil => exact plain_nil
  | cons op ops ih => simpa using ih

@[simp] theorem plain_news {count : Nat} : Plain arrays (List.replicate count (word .kwNew)) := by
  induction count with
  | zero => exact plain_nil
  | succ count ih => simpa [List.replicate_succ] using ih

theorem plain_separated {separator : List Slot} {parts : List (List Slot)} (between : Plain arrays separator)
    (all : ∀ part ∈ parts, Plain arrays part) : Plain arrays (separated separator parts) := by
  fun_induction separated separator parts with
  | case1 => exact plain_nil
  | case2 part => exact all part List.mem_cons_self
  | case3 part rest _ ih =>
    rw [plain_append, plain_append]
    exact ⟨all part List.mem_cons_self, between, ih fun part member => all part (List.mem_cons_of_mem _ member)⟩

@[simp] theorem plain_function {own : Option Bytes} {params : List Bytes} {body : List Slot} :
    Plain arrays (function own params body) ↔ Plain arrays body := by
  have names : Plain arrays (separated [punct .comma] (params.map fun n => [name n])) :=
    plain_separated (by simp) (by simp)
  cases own <;> simp [function, names]

@[simp] theorem plain_jump {w : Word} {label : Option Bytes} : Plain arrays (jump w label) := by
  cases label <;> simp [jump]

@[simp] theorem plain_head {w : Word} {slots : List Slot} : Plain arrays (head w slots) ↔ Plain arrays slots := by
  simp [head]

end Slot

namespace Tree

/-- A tree holds only ordinary tokens, and commas can be left out only in arrays. -/
theorem plain_slots {arrays : Prop} {shape : Shape} (tree : Tree shape) (possible : ¬ arrays → tree.All NoArray) :
    ∀ part ∈ tree.slots, Slot.Plain arrays part := by
  have commas : ∀ {parts : List (List Slot)}, (∀ part ∈ parts, Slot.Plain arrays part) →
      Slot.Plain arrays (Slot.separated [.punct .comma] parts) :=
    fun all => Slot.plain_separated (by simp) all
  induction tree with
  | cons node rest ihNode ihRest =>
    rw [slots, List.forall_mem_append]
    exact ⟨ihNode fun none => (possible none).1, ihRest fun none => (possible none).2⟩
  | arrayLit _ elements ih =>
    have allowed : arrays := Classical.byContradiction fun none => (possible none).1
    have separator : Slot.Plain arrays [.punct .comma, .elision] := by simp [allowed]
    have elided := Slot.plain_separated separator (ih fun none => absurd allowed none)
    rw [slots, List.forall_mem_singleton, Slot.plain_punct, Slot.plain_elision, Slot.plain_append]
    exact ⟨allowed, elided, by simp [allowed]⟩
  | update _ operand op ih =>
    have plain := ih fun none => (possible none).2
    cases op <;> simpa [slots] using plain
  | _ =>
    simp only [All, NoArray, imp_and, true_and, implies_true] at possible
    simp_all [slots]

/-- A bare expression is the left-hand side that it consists of. -/
theorem bareLhs?_good {shape : Shape} {tree : Tree shape} {lhs : Node .lhs} (bare : tree.bareLhs? = some lhs) :
    tree.yield = lhs.yield ∧
      ∀ {P : (shape : Shape) → Tree shape → Prop}, tree.All P → lhs.All P := by
  induction tree with
  | plain _ value ih => exact ⟨(ih bare).1, fun proper => (ih bare).2 proper.2⟩
  | level _ tier head operations ih _ =>
    cases operations with
    | nil =>
      refine ⟨?_, fun proper => (ih bare).2 proper.2.1⟩
      rw [← (ih bare).1]
      exact (List.append_nil _).trans (List.append_nil _)
    | cons _ _ => cases bare
  | unary _ ops operand ih =>
    cases ops with
    | nil =>
      refine ⟨?_, fun proper => (ih bare).2 proper.2⟩
      rw [← (ih bare).1]
      exact List.append_nil _
    | cons _ _ => cases bare
  | update _ operand op _ =>
    cases op with
    | none =>
      cases bare
      exact ⟨(List.append_nil _).trans (List.append_nil _), fun proper => proper.2⟩
    | some _ => cases bare
  | _ => cases bare

end Tree

open EcmaFold.Tree in
/-- An initialisation that can be a target is the left-hand side that it consists of. -/
theorem Grammar.initTarget?_good {init : Tree (.optional .sequence)} {lhs : Node .lhs}
    (target : initTarget? init = some lhs) :
    init.yield = lhs.yield ∧
      ∀ {P : (shape : Shape) → Tree shape → Prop}, init.All P → lhs.All P := by
  obtain ⟨_, _, value, rfl, bare⟩ := exists_of_initTarget? target
  obtain ⟨same, properLhs⟩ := bareLhs?_good bare
  refine ⟨?_, fun proper => properLhs proper.2.1.2.2⟩
  rw [← same]
  exact List.append_nil _

end EcmaFold
