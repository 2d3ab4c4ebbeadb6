import EcmaFold.Parser.Statement
import EcmaFold.Tree.Layout

/-!
Trees without places. Two trees are equal up to positions when they are the same once every span and
every offset is erased; their normalised source is then the same.
-/

namespace EcmaFold

/-- The span that stands for none. -/
def Span.zero : Span := ⟨0, 0⟩

namespace Tree

/-- The tree with all its places put to zero. -/
def erase : {shape : Shape} → Tree shape → Tree shape
  | _, nil => nil
  | _, cons head tail => cons head.erase tail.erase
  | _, absent => absent
  | _, present node => present node.erase
  | _, program _ elements => program .zero elements.erase
  | _, funcDecl _ name params body => funcDecl .zero name params body.erase
  | _, ofStatement node => ofStatement node.erase
  | _, ofBlock node => ofBlock node.erase
  | _, block _ list => block .zero list.erase
  | _, varStmt _ list => varStmt .zero list.erase
  | _, declaration _ name init => declaration .zero name init.erase
  | _, emptyStmt _ => emptyStmt .zero
  | _, exprStmt _ expr => exprStmt .zero expr.erase
  | _, ifStmt _ cond yes no => ifStmt .zero cond.erase yes.erase no.erase
  | _, doWhile _ body cond => doWhile .zero body.erase cond.erase
  | _, whileStmt _ cond body => whileStmt .zero cond.erase body.erase
  | _, forStmt _ init cond post body =>
    forStmt .zero init.erase cond.erase post.erase body.erase
  | _, forVar _ decls cond post body =>
    forVar .zero decls.erase cond.erase post.erase body.erase
  | _, forIn _ into object body => forIn .zero into.erase object.erase body.erase
  | _, forInVar _ decl object body => forInVar .zero decl.erase object.erase body.erase
  | _, continueStmt _ label => continueStmt .zero label
  | _, breakStmt _ label => breakStmt .zero label
  | _, returnStmt _ value => returnStmt .zero value.erase
  | _, withStmt _ object body => withStmt .zero object.erase body.erase
  | _, labeled _ label body => labeled .zero label body.erase
  | _, switchStmt _ tag cases fallback trailing =>
    switchStmt .zero tag.erase cases.erase fallback.erase trailing.erase
  | _, caseClause _ value body => caseClause .zero value.erase body.erase
  | _, defaultClause _ body => defaultClause .zero body.erase
  | _, throwStmt _ value => throwStmt .zero value.erase
  | _, tryStmt _ body handler cleanup => tryStmt .zero body.erase handler.erase cleanup.erase
  | _, catchClause _ param body => catchClause .zero param body.erase
  | _, debugger _ => debugger .zero
  | _, sequence _ list => sequence .zero list.erase
  | _, assign _ targets value => assign .zero targets.erase value.erase
  | _, target node op => target node.erase op
  | _, plain _ value => plain .zero value.erase
  | _, ternary _ test yes no => ternary .zero test.erase yes.erase no.erase
  | _, level _ tier head operations => level .zero tier head.erase operations.erase
  | _, operation tier op _ operand => operation tier op 0 operand.erase
  | _, unary _ ops operand => unary .zero ops operand.erase
  | _, update _ operand op => update .zero operand.erase op
  | _, call _ callee args modifiers => call .zero callee.erase args.erase modifiers.erase
  | _, newExpr _ count object => newExpr .zero count object.erase
  | _, member _ object modifiers => member .zero object.erase modifiers.erase
  | _, ofInstantiation node => ofInstantiation node.erase
  | _, instantiation _ object args => instantiation .zero object.erase args.erase
  | _, arguments _ list => arguments .zero list.erase
  | _, ofArguments args => ofArguments args.erase
  | _, index _ expr => index .zero expr.erase
  | _, property _ name => property .zero name
  | _, thisExpr _ => thisExpr .zero
  | _, ident _ name => ident .zero name
  | _, nullLit _ => nullLit .zero
  | _, boolLit _ value => boolLit .zero value
  | _, numberLit _ value => numberLit .zero value
  | _, stringLit _ value => stringLit .zero value
  | _, arrayLit _ elements => arrayLit .zero elements.erase
  | _, paren _ expr => paren .zero expr.erase
  | _, funcExpr _ name params body => funcExpr .zero name params body.erase
  | _, instantiated node => instantiated node.erase

-- The equations are derived here, once, and not again by each proof that uses them.
attribute [local simp] erase

theorem needsSpace_erase {shape : Shape} (tree : Tree shape) :
    tree.erase.needsSpace = tree.needsSpace := by
  cases tree <;> rfl

theorem startsWithProperty_erase {shape : Shape} (tree : Tree shape) :
    tree.erase.startsWithProperty = tree.startsWithProperty := by
  cases tree with
  | cons head tail => cases head <;> rfl
  | _ => rfl

/-- White space and tokens do not depend on places. -/
theorem layout_erase {shape : Shape} (tree : Tree shape) (depth : Nat) :
    tree.erase.layout depth = tree.layout depth := by
  induction tree generalizing depth with
  | member _ object modifiers ihObject ihModifiers =>
    simp only [erase, layout, ihObject, ihModifiers, needsSpace_erase, startsWithProperty_erase]
  | _ => simp only [erase, layout, *]

theorem format_erase {kind : Kind} (node : Node kind) : format (erase node) = format node := by
  cases kind <;> simp only [format, layout_erase]

@[simp] theorem erase_ofList {kind : Kind} (list : List (Node kind)) :
    (ofList list).erase = ofList (list.map erase) := by
  induction list with
  | nil => rfl
  | cons head tail ih => simp only [ofList, List.map_cons, erase, ih]

/-- Every list tree comes from a list. -/
theorem exists_ofList {kind : Kind} : (tree : Tree (.list kind)) → ∃ list, tree = ofList list
  | nil => ⟨[], rfl⟩
  | cons head tail => by
    obtain ⟨list, rfl⟩ := exists_ofList tail
    exact ⟨head :: list, rfl⟩

/-- The left-hand side of a bare expression, up to positions, is that of the expression without places. -/
theorem bareLhs?_erase {shape : Shape} (tree : Tree shape) :
    tree.erase.bareLhs? = tree.bareLhs?.map erase := by
  induction tree with
  | plain _ value ih => simp only [erase, bareLhs?, ih]
  | level _ tier head operations ihHead _ =>
    cases operations with
    | nil => simp only [erase, bareLhs?, ihHead]
    | cons _ _ => rfl
  | unary _ ops operand ih =>
    cases ops with
    | nil => simp only [erase, bareLhs?, ih]
    | cons _ _ => rfl
  | update _ operand op _ => cases op <;> rfl
  | _ => rfl

theorem addTarget_erase (lhs : Node .lhs) (op : AssignOp) (rest : Node .assign) (span : Span) :
    (addTarget lhs op rest span).erase = addTarget lhs.erase op rest.erase .zero := by
  cases rest
  rfl

theorem forTarget?_erase (expr : Node .sequence) :
    forTarget? expr.erase = (forTarget? expr).map erase := by
  cases expr with
  | sequence _ list =>
    cases list with
    | nil => rfl
    | cons first rest =>
      cases first with
      | assign _ targets value =>
        cases targets with
        | cons _ _ => cases rest <;> rfl
        | nil =>
          cases rest with
          | nil => exact bareLhs?_erase value
          | cons _ _ => rfl

end Tree

theorem Grammar.initTarget?_erase (init : Tree (.optional .sequence)) :
    initTarget? init.erase = (initTarget? init).map Tree.erase := by
  cases init with
  | absent => rfl
  | present expr => exact Tree.forTarget?_erase expr

/-- An initialisation with a target is a single expression without an assignment. -/
theorem Grammar.exists_of_initTarget? {init : Tree (.optional .sequence)} {lhs : Node .lhs}
    (target : initTarget? init = some lhs) : ∃ span span' value,
      init = .present (.sequence span (.cons (.assign span' .nil value) .nil)) ∧ value.bareLhs? = some lhs := by
  cases init with
  | absent => cases target
  | present expr =>
    cases expr with
    | sequence span list =>
      cases list with
      | nil => cases target
      | cons first rest =>
        cases first with
        | assign span' targets value =>
          cases targets with
          | cons _ _ => cases rest <;> cases target
          | nil =>
            cases rest with
            | cons _ _ => cases target
            | nil => exact ⟨span, span', value, rfl, target⟩

end EcmaFold
