import EcmaFold.Parser.Basic
import EcmaFold.Proofs.Tree.WellFormed

/-!
Where the nodes of a tree stand. A route goes along the tokens of a source and asks for places; the route of a tree
goes over its tokens and gives the tree with the places that it finds. It does not look at the places in the tree, so
trees that are equal up to positions have the same route.
-/

namespace EcmaFold

namespace Cursor

/-- The cursor behind the next token. -/
def advance : Cursor → Cursor
  | ⟨stop, []⟩ => ⟨stop, []⟩
  | ⟨_, next :: rest⟩ => ⟨next.span.stop, rest⟩

/-- The offset behind the commas that come first, if any, and the lexemes behind them. -/
def behindCommas : (stop : Nat) → List Lexeme → Cursor
  | _, ⟨.punct .comma, _, span⟩ :: rest => behindCommas span.stop rest
  | stop, rest => ⟨stop, rest⟩

/-- The cursor behind all commas that come next. -/
def skipCommas (c : Cursor) : Cursor := behindCommas c.stop c.rest

end Cursor

/-- A route along tokens, which gives a value that can depend on places. -/
inductive Route (α : Type) where
  | done (value : α)
  /-- Over one token. -/
  | pass (next : Route α)
  /-- Over all commas that come next. -/
  | passCommas (next : Route α)
  /-- Asks for the offset of the next token. -/
  | start (next : Nat → Route α)
  /-- Asks for the offset behind the last token. -/
  | stop (next : Nat → Route α)

namespace Route

variable {α β : Type}

protected def bind : Route α → (α → Route β) → Route β
  | done value, f => f value
  | pass next, f => pass (next.bind f)
  | passCommas next, f => passCommas (next.bind f)
  | start next, f => start fun n => (next n).bind f
  | stop next, f => stop fun n => (next n).bind f

instance : Monad Route where
  pure := done
  bind := Route.bind

/-- Follows a route from a cursor. -/
def follow : Route α → Cursor → α × Cursor
  | done value, c => (value, c)
  | pass next, c => next.follow c.advance
  | passCommas next, c => next.follow c.skipCommas
  | start next, c => (next c.offset).follow c
  | stop next, c => (next c.stop).follow c

@[simp] theorem follow_pure (value : α) (c : Cursor) : (pure value : Route α).follow c = (value, c) := rfl

@[simp] theorem follow_bind (route : Route α) (f : α → Route β) (c : Cursor) :
    (route >>= f).follow c = (f (route.follow c).1).follow (route.follow c).2 := by
  change (route.bind f).follow c = _
  induction route generalizing c with
  | done value => rfl
  | pass next ih => exact ih c.advance
  | passCommas next ih => exact ih c.skipCommas
  | start next ih => exact ih c.offset c
  | stop next ih => exact ih c.stop c

/-- Over a number of tokens. -/
def steps : Nat → Route Unit
  | 0 => done ()
  | count + 1 => pass (steps count)

/-- Over all commas that come next. -/
def commas : Route Unit := passCommas (done ())

/-- A value that is told what it covers. -/
def placed (inside : Route (Span → α)) : Route α :=
  start fun first => inside >>= fun build => stop fun last => done (build ⟨first, last⟩)

@[simp] theorem follow_steps_zero (c : Cursor) : (steps 0).follow c = ((), c) := rfl

@[simp] theorem follow_steps_succ (count : Nat) (c : Cursor) :
    (steps (count + 1)).follow c = (steps count).follow c.advance := rfl

theorem follow_steps_add (count more : Nat) (c : Cursor) :
    (steps (count + more)).follow c = (steps more).follow ((steps count).follow c).2 := by
  induction count generalizing c with
  | zero => rw [Nat.zero_add]; rfl
  | succ count ih => rw [Nat.succ_add]; exact ih c.advance

@[simp] theorem follow_commas (c : Cursor) : commas.follow c = ((), c.skipCommas) := rfl

@[simp] theorem follow_placed (inside : Route (Span → α)) (c : Cursor) :
    (placed inside).follow c =
      ((inside.follow c).1 ⟨c.offset, (inside.follow c).2.stop⟩, (inside.follow c).2) := by
  change ((inside >>= _ : Route α)).follow c = _
  rw [follow_bind]
  rfl

end Route

/-! What a route depends on -/

namespace Cursor

theorem advance_rest (c : Cursor) : c.advance.rest <:+ c.rest := by
  obtain ⟨_, _ | ⟨next, rest⟩⟩ := c
  · exact List.suffix_refl _
  · exact List.suffix_cons next rest

theorem behindCommas_rest (stop : Nat) (lexemes : List Lexeme) : (behindCommas stop lexemes).rest <:+ lexemes := by
  fun_induction behindCommas stop lexemes with
  | case1 _ _ span rest ih => exact ih.trans (List.suffix_cons _ _)
  | case2 => exact List.suffix_refl _

/-- Behind the commas no comma comes next. -/
theorem behindCommas_eq {stop : Nat} {lexemes : List Lexeme}
    (noComma : ∀ next ∈ lexemes.head?, next.token ≠ .punct .comma) : behindCommas stop lexemes = ⟨stop, lexemes⟩ := by
  unfold behindCommas
  split
  · exact absurd rfl (noComma _ rfl)
  · rfl

@[simp] theorem skipCommas_skipCommas (c : Cursor) : c.skipCommas.skipCommas = c.skipCommas := by
  have again : ∀ stop lexemes, (behindCommas stop lexemes).skipCommas = behindCommas stop lexemes := by
    intro stop lexemes
    fun_induction behindCommas stop lexemes with
    | case1 _ _ span rest ih => exact ih
    | case2 stop lexemes noComma => exact behindCommas.eq_2 stop lexemes noComma
  exact again c.stop c.rest

/-- The commas at the beginning lie in the front, or all of the front are commas. -/
theorem behindCommas_append (stop : Nat) (front : List Lexeme) :
    ∃ stop' front', (∀ back, front' ≠ [] → behindCommas stop (front ++ back) = ⟨stop', front' ++ back⟩) ∧
      ∀ back, front' = [] → behindCommas stop (front ++ back) = behindCommas stop' back := by
  fun_induction behindCommas stop front with
  | case1 _ _ span rest ih => exact ih
  | case2 stop front noComma =>
    refine ⟨stop, front, fun back nonempty => ?_, fun back empty => by rw [empty]; rfl⟩
    obtain _ | ⟨next, front⟩ := front
    · exact absurd rfl nonempty
    · refine behindCommas_eq ?_
      rintro _ ⟨⟩ isComma
      obtain ⟨token, newline, span⟩ := next
      exact noComma newline span front (by rw [← isComma])

/-- Unless no lexeme is left, at least one of them was taken on the way. -/
def Past (c after : Cursor) : Prop := after.rest ≠ [] → after.rest.length < c.rest.length

end Cursor

namespace Route

variable {α : Type}

/-- Wherever the route asks for the next token, it goes over that token. -/
def AsksAhead : Route α → Prop
  | done _ => True
  | pass next => next.AsksAhead
  | passCommas next => next.AsksAhead
  | start next => ∀ n, (∀ c : Cursor, c.Past ((next n).follow c).2) ∧ (next n).AsksAhead
  | stop next => ∀ n, (next n).AsksAhead

/-- A route ends at lexemes from where it began. -/
theorem follow_rest (route : Route α) (c : Cursor) : (route.follow c).2.rest <:+ c.rest := by
  induction route generalizing c with
  | done value => exact List.suffix_refl _
  | pass next ih => exact (ih _).trans c.advance_rest
  | passCommas next ih => exact (ih _).trans (Cursor.behindCommas_rest _ _)
  | start next ih => exact ih _ c
  | stop next ih => exact ih _ c

/-- A route that takes exactly the lexemes in front finds the same places there whatever stands behind them, if the
next token begins at the same place or is not asked for, and is no comma. -/
theorem follow_append {route : Route α} {stop : Nat} {front back back' : List Lexeme}
    (whole : (route.follow ⟨stop, front ++ back⟩).2.rest = back) (nonempty : back ≠ [])
    (same : route.AsksAhead ∨ ∀ stop, Cursor.offset ⟨stop, back⟩ = Cursor.offset ⟨stop, back'⟩)
    (noComma : ∀ next ∈ back'.head?, next.token ≠ .punct .comma) :
    (route.follow ⟨stop, front ++ back'⟩).1 = (route.follow ⟨stop, front ++ back⟩).1 := by
  induction route generalizing stop front with
  | done value => rfl
  | pass next ih =>
    cases front with
    | nil =>
      -- One lexeme less than the rest is left.
      obtain ⟨first, others, rfl⟩ := List.exists_cons_of_ne_nil nonempty
      have shorter := (follow_rest next (Cursor.advance ⟨stop, first :: others⟩)).length_le
      rw [show (next.follow (Cursor.advance ⟨stop, first :: others⟩)).2.rest = _ from whole] at shorter
      exact absurd shorter (Nat.not_succ_le_self _)
    | cons first front => exact ih whole same
  | passCommas next ih =>
    obtain ⟨stop', front', inside, outside⟩ := Cursor.behindCommas_append stop front
    change (next.follow (Cursor.behindCommas stop (front ++ back))).2.rest = back at whole
    change (next.follow (Cursor.behindCommas stop (front ++ back'))).1 =
      (next.follow (Cursor.behindCommas stop (front ++ back))).1
    by_cases empty : front' = []
    · rw [outside back empty] at whole ⊢
      have noCommaHere : ∀ next ∈ back.head?, next.token ≠ .punct .comma := by
        intro first isFirst isComma
        obtain ⟨others, rfl⟩ := List.head?_eq_some_iff.mp isFirst
        obtain ⟨token, newline, span⟩ := first
        obtain rfl : token = .punct .comma := isComma
        have shorter :=
          (follow_rest next (Cursor.behindCommas stop' (⟨.punct .comma, newline, span⟩ :: others))).length_le
        have behind := (Cursor.behindCommas_rest span.stop others).length_le
        rw [whole] at shorter
        exact absurd (Nat.le_trans shorter behind) (Nat.not_succ_le_self _)
      rw [outside back' empty, Cursor.behindCommas_eq noComma]
      rw [Cursor.behindCommas_eq noCommaHere] at whole ⊢
      exact @ih stop' [] whole same
    · rw [inside back empty] at whole ⊢
      rw [inside back' empty]
      exact ih whole same
  | start next ih =>
    change ((next _).follow _).2.rest = back at whole
    change ((next _).follow _).1 = ((next _).follow _).1
    have here : Cursor.offset ⟨stop, front ++ back⟩ = Cursor.offset ⟨stop, front ++ back'⟩ := by
      cases front with
      | cons first front => rfl
      | nil =>
        refine same.elim (fun ahead => ?_) fun same => same stop
        rw [List.nil_append] at whole
        have past := (ahead (Cursor.offset ⟨stop, back⟩)).1 ⟨stop, back⟩
        rw [Cursor.Past, whole] at past
        exact absurd (past nonempty) (Nat.lt_irrefl _)
    rw [here] at whole ⊢
    exact ih _ whole (same.imp_left fun ahead => (ahead _).2)
  | stop next ih => exact ih _ whole (same.imp_left fun ahead => ahead _)

end Route

namespace Tree

open Route

/-- The tokens of a function around its body: the word, the name, the parameters in brackets with commas between them,
and the braces. -/
def functionRoute {α : Type} (own : Option Bytes) (params : List Bytes) (body : Route α) : Route α := do
  steps 1
  steps own.toList.length
  steps (2 + (2 * params.length - 1))
  steps 1
  let body ← body
  steps 1
  return body

/-- The route of a tree. A list goes over `lead` before its first node and over `joint` before each other one, and a
node that may be absent goes over `lead` before it. -/
def route : {shape : Shape} → Tree shape → (lead : Route Unit := pure ()) → (joint : Route Unit := pure ()) →
    Route (Tree shape)
  | _, nil, _, _ => pure nil
  | _, cons head tail, lead, joint => do lead; return cons (← head.route) (← tail.route joint joint)
  | _, absent, _, _ => pure absent
  | _, present node, lead, _ => do lead; return present (← node.route)
  -- A program ends where the first token behind it begins.
  | _, program _ elements, _, _ => .start fun first => do
    let elements ← elements.route
    .start fun last => return program ⟨first, last⟩ elements
  | _, funcDecl _ own params body, _, _ => placed do
    let body ← functionRoute (some own) params body.route
    return fun s => funcDecl s own params body
  | _, ofStatement node, _, _ => return ofStatement (← node.route)
  | _, ofBlock node, _, _ => return ofBlock (← node.route)
  | _, block _ list, _, _ => placed do
    steps 1
    let list ← list.route
    steps 1
    return fun s => block s list
  | _, varStmt _ list, _, _ => placed do
    steps 1
    let list ← list.route (pure ()) (steps 1)
    steps 1
    return fun s => varStmt s list
  | _, declaration _ own init, _, _ => placed do
    steps 1
    let init ← init.route (steps 1)
    return fun s => declaration s own init
  | _, emptyStmt _, _, _ => placed do steps 1; return fun s => emptyStmt s
  | _, exprStmt _ expr, _, _ => placed do
    let expr ← expr.route
    steps 1
    return fun s => exprStmt s expr
  | _, ifStmt _ cond yes no, _, _ => placed do
    steps 2
    let cond ← cond.route
    steps 1
    let yes ← yes.route
    let no ← no.route (steps 1)
    return fun s => ifStmt s cond yes no
  | _, doWhile _ body cond, _, _ => placed do
    steps 1
    let body ← body.route
    steps 2
    let cond ← cond.route
    steps 2
    return fun s => doWhile s body cond
  | _, whileStmt _ cond body, _, _ => placed do
    steps 2
    let cond ← cond.route
    steps 1
    let body ← body.route
    return fun s => whileStmt s cond body
  | _, forStmt _ init cond post body, _, _ => placed do
    steps 2
    let init ← init.route
    steps 1
    let cond ← cond.route
    steps 1
    let post ← post.route
    steps 1
    let body ← body.route
    return fun s => forStmt s init cond post body
  | _, forVar _ decls cond post body, _, _ => placed do
    steps 3
    let decls ← decls.route (pure ()) (steps 1)
    steps 1
    let cond ← cond.route
    steps 1
    let post ← post.route
    steps 1
    let body ← body.route
    return fun s => forVar s decls cond post body
  | _, forIn _ into object body, _, _ => placed do
    steps 2
    let into ← into.route
    steps 1
    let object ← object.route
    steps 1
    let body ← body.route
    return fun s => forIn s into object body
  | _, forInVar _ decl object body, _, _ => placed do
    steps 3
    let decl ← decl.route
    steps 1
    let object ← object.route
    steps 1
    let body ← body.route
    return fun s => forInVar s decl object body
  | _, continueStmt _ label, _, _ => placed do
    steps 1
    steps label.toList.length
    steps 1
    return fun s => continueStmt s label
  | _, breakStmt _ label, _, _ => placed do
    steps 1
    steps label.toList.length
    steps 1
    return fun s => breakStmt s label
  | _, returnStmt _ value, _, _ => placed do
    steps 1
    let value ← value.route
    steps 1
    return fun s => returnStmt s value
  | _, withStmt _ object body, _, _ => placed do
    steps 2
    let object ← object.route
    steps 1
    let body ← body.route
    return fun s => withStmt s object body
  | _, labeled _ label body, _, _ => placed do
    steps 2
    let body ← body.route
    return fun s => labeled s label body
  | _, switchStmt _ tag cases fallback trailing, _, _ => placed do
    steps 2
    let tag ← tag.route
    steps 2
    let cases ← cases.route
    let fallback ← fallback.route
    let trailing ← trailing.route
    steps 1
    return fun s => switchStmt s tag cases fallback trailing
  | _, caseClause _ value body, _, _ => placed do
    steps 1
    let value ← value.route
    steps 1
    let body ← body.route
    return fun s => caseClause s value body
  | _, defaultClause _ body, _, _ => placed do
    steps 2
    let body ← body.route
    return fun s => defaultClause s body
  | _, throwStmt _ value, _, _ => placed do
    steps 1
    let value ← value.route
    steps 1
    return fun s => throwStmt s value
  | _, tryStmt _ body handler cleanup, _, _ => placed do
    steps 1
    let body ← body.route
    let handler ← handler.route
    let cleanup ← cleanup.route (steps 1)
    return fun s => tryStmt s body handler cleanup
  | _, catchClause _ param body, _, _ => placed do
    steps 4
    let body ← body.route
    return fun s => catchClause s param body
  | _, debugger _, _, _ => placed do steps 2; return fun s => debugger s
  | _, sequence _ list, _, _ => placed do
    let list ← list.route (pure ()) (steps 1)
    return fun s => sequence s list
  | _, assign _ targets value, _, _ => placed do
    let targets ← targets.route
    let value ← value.route
    return fun s => assign s targets value
  | _, target node op, _, _ => do
    let node ← node.route
    steps 1
    return target node op
  | _, plain _ value, _, _ => placed do
    let value ← value.route
    return fun s => plain s value
  | _, ternary _ test yes no, _, _ => placed do
    let test ← test.route
    steps 1
    let yes ← yes.route
    steps 1
    let no ← no.route
    return fun s => ternary s test yes no
  | _, level _ tier head operations, _, _ => placed do
    let head ← head.route
    let operations ← operations.route
    return fun s => level s tier head operations
  | _, operation tier op _ operand, _, _ => .start fun offset => do
    steps 1
    let operand ← operand.route
    return operation tier op offset operand
  | _, unary _ ops operand, _, _ => placed do
    steps ops.length
    let operand ← operand.route
    return fun s => unary s ops operand
  | _, update _ operand op, _, _ => placed do
    let operand ← operand.route
    steps op.toList.length
    return fun s => update s operand op
  | _, call _ callee args modifiers, _, _ => placed do
    let callee ← callee.route
    let args ← args.route
    let modifiers ← modifiers.route
    return fun s => call s callee args modifiers
  | _, newExpr _ count object, _, _ => placed do
    steps count
    let object ← object.route
    return fun s => newExpr s count object
  | _, member _ object modifiers, _, _ => placed do
    let object ← object.route
    let modifiers ← modifiers.route
    return fun s => member s object modifiers
  | _, ofInstantiation node, _, _ => return ofInstantiation (← node.route)
  | _, instantiation _ object args, _, _ => placed do
    steps 1
    let object ← object.route
    let args ← args.route
    return fun s => instantiation s object args
  | _, arguments _ list, _, _ => placed do
    steps 1
    let list ← list.route (pure ()) (steps 1)
    steps 1
    return fun s => arguments s list
  | _, ofArguments args, _, _ => return ofArguments (← args.route)
  | _, index _ expr, _, _ => placed do
    steps 1
    let expr ← expr.route
    steps 1
    return fun s => index s expr
  | _, property _ own, _, _ => placed do steps 2; return fun s => property s own
  | _, thisExpr _, _, _ => placed do steps 1; return fun s => thisExpr s
  | _, ident _ own, _, _ => placed do steps 1; return fun s => ident s own
  | _, nullLit _, _, _ => placed do steps 1; return fun s => nullLit s
  | _, boolLit _ value, _, _ => placed do steps 1; return fun s => boolLit s value
  | _, numberLit _ value, _, _ => placed do steps 1; return fun s => numberLit s value
  | _, stringLit _ value, _, _ => placed do steps 1; return fun s => stringLit s value
  | _, arrayLit _ elements, _, _ => placed do
    steps 1
    commas
    let elements ← elements.route (pure ()) (do steps 1; commas)
    commas
    steps 1
    return fun s => arrayLit s elements
  | _, paren _ expr, _, _ => placed do
    steps 1
    let expr ← expr.route
    steps 1
    return fun s => paren s expr
  | _, funcExpr _ own params body, _, _ => placed do
    let body ← functionRoute own params body.route
    return fun s => funcExpr s own params body
  | _, instantiated node, _, _ => return instantiated (← node.route)

-- The equations are derived here, once, and not again by each proof that uses them.
attribute [local simp] route

/-- The route does not depend on the places in the tree. -/
theorem route_erase {shape : Shape} (tree : Tree shape) (lead joint : Route Unit) :
    tree.erase.route lead joint = tree.route lead joint := by
  induction tree generalizing lead joint with
  | _ => simp only [erase, route, *]

theorem route_eq_of_erase_eq {shape : Shape} {tree tree' : Tree shape} (same : tree.erase = tree'.erase)
    (lead joint : Route Unit) : tree.route lead joint = tree'.route lead joint := by
  rw [← tree.route_erase, same, route_erase]

end Tree

/-! Places within a limit -/

namespace Cursor

/-- The offset of the cursor and the lexemes ahead of it lie within a limit. -/
structure Within (limit : Nat) (c : Cursor) : Prop where
  stop : c.stop ≤ limit
  ahead : ∀ lexeme ∈ c.rest, lexeme.span.start ≤ limit ∧ lexeme.span.stop ≤ limit

variable {limit : Nat} {c : Cursor}

theorem Within.offset (within : c.Within limit) : c.offset ≤ limit := by
  obtain ⟨stop, _ | ⟨next, rest⟩⟩ := c
  · exact within.stop
  · exact (within.ahead next List.mem_cons_self).1

theorem Within.advance (within : c.Within limit) : c.advance.Within limit := by
  obtain ⟨stop, _ | ⟨next, rest⟩⟩ := c
  · exact within
  · exact ⟨(within.ahead next List.mem_cons_self).2, fun lexeme member =>
      within.ahead lexeme (List.mem_cons_of_mem _ member)⟩

theorem Within.skipCommas (within : c.Within limit) : c.skipCommas.Within limit := by
  obtain ⟨stop, rest⟩ := c
  change (behindCommas stop rest).Within limit
  fun_induction behindCommas stop rest with
  | case1 _ _ span rest ih => exact ih within.advance
  | case2 => exact within

theorem Within.follow {α : Type} (within : c.Within limit) (route : Route α) : (route.follow c).2.Within limit := by
  induction route generalizing c with
  | done value => exact within
  | pass next ih => exact ih within.advance
  | passCommas next ih => exact ih within.skipCommas
  | start next ih => exact ih _ within
  | stop next ih => exact ih _ within

end Cursor

namespace Tree

/-- The offsets of the operators of a node with operations. -/
def operatorPlaces : {shape : Shape} → Tree shape → List Nat
  | _, level _ _ _ operations => operations.operatorPlaces
  | _, cons node rest => node.operatorPlaces ++ rest.operatorPlaces
  | _, operation _ _ offset _ => [offset]
  | _, _ => []

/-- All offsets that a node holds by itself. -/
def places {shape : Shape} (node : Tree shape) : List Nat := node.span.start :: node.span.stop :: node.operatorPlaces

/-- The node lies within a limit. -/
def Fits (limit : Nat) (shape : Shape) (node : Tree shape) : Prop := ∀ place ∈ node.places, place ≤ limit

theorem operatorPlaces_route {limit : Nat} {shape : Shape} (tree : Tree shape) {lead joint : Route Unit} {c : Cursor}
    (within : c.Within limit) : ∀ place ∈ ((tree.route lead joint).follow c).1.operatorPlaces, place ≤ limit := by
  induction tree generalizing lead joint c with
  | cons node rest ih ih' =>
    simp only [route, Route.follow_bind, Route.follow_pure, operatorPlaces, List.forall_mem_append]
    exact ⟨ih (within.follow lead), ih' ((within.follow lead).follow node.route)⟩
  | operation tier op offset operand _ =>
    simpa [route, Route.follow, operatorPlaces] using within.offset
  | level span tier head operations _ ih =>
    simpa [route, operatorPlaces] using ih (within.follow head.route)
  | _ => simp [route, Route.follow, operatorPlaces]

/-- Wherever its route begins within a limit, the tree that it gives lies within the limit. -/
def RouteFits (limit : Nat) {shape : Shape} (tree : Tree shape) : Prop :=
  ∀ ⦃lead joint : Route Unit⦄ ⦃c : Cursor⦄, c.Within limit → ((tree.route lead joint).follow c).1.All (Fits limit)

theorem RouteFits.all {limit : Nat} {shape : Shape} {tree : Tree shape} (fits : tree.RouteFits limit)
    {lead joint : Route Unit} {c : Cursor} (within : c.Within limit) :
    ((tree.route lead joint).follow c).1.All (Fits limit) := fits within

theorem routeFits (limit : Nat) {shape : Shape} (tree : Tree shape) : tree.RouteFits limit := by
  induction tree with
  | nil | absent => exact fun _ _ _ _ => trivial
  | level span tier head operations ih ih' =>
    intro lead joint c within
    have behind := within.follow head.route
    simp only [route, Route.follow_placed, Route.follow_bind, Route.follow_pure, All, Fits, places, Tree.span,
      operatorPlaces, List.forall_mem_cons]
    exact ⟨⟨within.offset, (behind.follow operations.route).stop, operatorPlaces_route operations behind⟩,
      ih within, ih' behind⟩
  | _ =>
    intro lead joint c within
    simp only [route, functionRoute, Route.follow_placed, Route.follow_bind, Route.follow_pure, Route.follow, All,
      Fits, places, Tree.span, operatorPlaces, List.forall_mem_cons, List.not_mem_nil, false_imp_iff, implies_true,
      and_true]
    -- What is left are places of cursors on the route and the nodes below.
    with_reducible repeat' first
      | assumption
      | apply And.intro
      | apply Cursor.Within.offset
      | apply Cursor.Within.stop
      | apply Cursor.Within.follow
      | apply Cursor.Within.advance
      | apply Cursor.Within.skipCommas
      | apply RouteFits.all

end Tree

end EcmaFold
