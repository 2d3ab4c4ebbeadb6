import EcmaFold.Proofs.Parser.Agree
import EcmaFold.Proofs.Parser.First
import EcmaFold.Proofs.Tree.Erased

/-!
Every production keeps agreement. So a grammar reads alike cursors alike, and how deep it may nest makes no
difference once it may nest as deep as there are lexemes.
-/

namespace EcmaFold

/-- Two trees are the same up to positions. -/
abbrev Tree.Same {shape : Shape} (t u : Tree shape) : Prop := t.erase = u.erase

theorem Tree.Same.ofList {kind : Kind} {list list' : List (Node kind)}
    (same : List.Forall₂ Same list list') : Same (ofList list) (ofList list') := by
  induction same with
  | nil => rfl
  | cons head _ ih => exact congrArg₂ cons head ih

theorem Tree.Same.ofOption {kind : Kind} {node node' : Option (Node kind)}
    (same : Option.Rel Same node node') : Same (ofOption node) (ofOption node') := by
  cases same with
  | none => rfl
  | some same => exact congrArg present same

namespace Grammar

open EcmaFold.Parser EcmaFold.Tree

/-- Grammars that agree on assignments up to `m` lexemes and on statements and source elements up to `n`, and
that read no expression where none can start. -/
structure Alike (m n : Nat) (g g' : Grammar) : Prop where
  stuck : ∀ c : Cursor, c.NoExpression → (g.assign true).Fails c
  stuck' : ∀ c : Cursor, c.NoExpression → (g'.assign true).Fails c
  assign : ∀ allowIn, Agree m Same (g.assign allowIn) (g'.assign allowIn)
  statement : Agree n Same g.statement g'.statement
  element : Agree n Same g.element g'.element

theorem Alike.mono {m m' n n' : Nat} {g g' : Grammar} (alike : Alike m n g g') (fewer : m' ≤ m)
    (fewer' : n' ≤ n) : Alike m' n' g g' where
  stuck := alike.stuck
  stuck' := alike.stuck'
  assign allowIn := (alike.assign allowIn).mono fewer
  statement := alike.statement.mono fewer'
  element := alike.element.mono fewer'

section Expressions

variable {m n : Nat} {g g' : Grammar} {allowIn : Bool}

theorem Alike.sequence (alike : Alike m n g g') :
    Agree m Same (g.sequence allowIn) (g'.sequence allowIn) := by
  refine Agree.spanned ((alike.assign allowIn).separated.bind fun list list' same => ?_)
  exact agree_pure fun _ _ => congrArg (Tree.sequence .zero) (Same.ofList same)

theorem params_agree : Agree n Eq params params := by
  refine agree_expect (agree_take (Nat.le_succ _) (agree_pure rfl) ?_)
  refine agree_identifier.separated.bind fun names names' same => agree_expect (agree_pure ?_)
  exact List.forall₂_eq_eq_eq ▸ same

theorem Alike.functionBody (alike : Alike n n g g') : Agree n Same g.functionBody g'.functionBody := by
  refine agree_expect (Agree.bind (R := List.Forall₂ Same) (Agree.loop ?_) fun body body' same => ?_)
  · refine agree_probe (Nat.le_succ _) (agree_pure ⟨.nil, rfl⟩) ?_
    exact alike.element.bind fun element element' same => agree_pure ⟨.cons same .nil, rfl⟩
  · exact agree_pure (Same.ofList same)

theorem Alike.functionExpr (alike : Alike n n g g') :
    Agree (n + 1) Same g.functionExpr g'.functionExpr := by
  refine Agree.spanned (agree_require ?_)
  refine agree_identifier?.bind fun name name' sameName => ?_
  refine params_agree.bind fun params params' sameParams => ?_
  refine alike.functionBody.bind fun body body' same => agree_pure fun _ _ => ?_
  subst sameName sameParams
  exact congrArg (Tree.funcExpr .zero name params) same

/-- The node of a token does not depend on its place. -/
theorem atom?_same {t : Token} {node : Span → Node .primary} (found : atom? t = some node) (s s' : Span) :
    Same (node s) (node s') := by
  cases t with
  | keyword w =>
    cases w <;> simp only [atom?, Option.some.injEq, reduceCtorEq] at found <;> subst found <;> rfl
  | number value => cases found; rfl
  | string value => cases found; rfl
  | name spelling => cases found; rfl
  | _ => cases found

theorem atom_agree : Agree n Same atom atom := by
  refine Agree.spanned (agree_accept (Nat.le_succ _) (fun t node found => ?_) agree_fail)
  exact agree_pure (atom?_same found)

theorem Alike.arrayLit (alike : Alike n n g g') : Agree (n + 1) Same g.arrayLit g'.arrayLit := by
  refine Agree.spanned (agree_require
    (Agree.bind (R := List.Forall₂ Same) (Agree.loop ?_) fun list list' same => ?_))
  · refine agree_take (Nat.le_succ _) (agree_pure ⟨.nil, rfl⟩) ?_
    refine agree_take (Nat.le_succ _) (agree_pure ⟨.nil, rfl⟩) ?_
    refine (alike.assign true).bind fun element element' same => ?_
    refine agree_take (Nat.le_succ _) (agree_pure ⟨.cons same .nil, rfl⟩) ?_
    exact agree_expect (agree_pure ⟨.cons same .nil, rfl⟩)
  · exact agree_pure fun _ _ => congrArg (Tree.arrayLit .zero) (Same.ofList same)

theorem Alike.paren (alike : Alike n n g g') : Agree (n + 1) Same g.paren g'.paren := by
  refine Agree.spanned (agree_take (Nat.le_refl _) ?_ agree_failMissing)
  refine alike.sequence.bind fun expr expr' same => agree_expect (agree_pure fun _ _ => ?_)
  exact congrArg (Tree.paren .zero) same

theorem Alike.primary (alike : Alike n n g g') : Agree (n + 1) Same g.primary g'.primary :=
  atom_agree.either (alike.arrayLit.either alike.paren)

theorem Alike.arguments (alike : Alike n n g g') : Agree (n + 1) Same g.arguments g'.arguments := by
  refine Agree.spanned (agree_require (agree_take (Nat.le_succ _) (agree_pure fun _ _ => rfl) ?_))
  refine (alike.assign true).separated.bind fun list list' same => agree_expect (agree_pure fun _ _ => ?_)
  exact congrArg (Tree.arguments .zero) (Same.ofList same)

theorem Alike.index {calls : Bool} (alike : Alike n n g g') :
    Agree (n + 1) Same (g.index : Parser (Node (.modifier calls))) g'.index := by
  refine Agree.spanned (agree_require ?_)
  refine alike.sequence.bind fun expr expr' same => agree_expect (agree_pure fun _ _ => ?_)
  exact congrArg (Tree.index .zero) same

theorem point_agree : Agree n Eq point point := by
  have all : Agree n Eq (expect (.punct .dot) >>= fun _ => pure ()) (expect (.punct .dot) >>= fun _ => pure ()) :=
    agree_expect (agree_pure rfl)
  have asExpect : ∀ c, (point c).result = ((expect (.punct .dot) >>= fun _ => pure ()) c).result := by
    intro c
    rw [point_result]
    exact result_eq_of_gives fun v after => by simp
  exact all.of_results asExpect asExpect

theorem property_agree {calls : Bool} :
    Agree n Same (property : Parser (Node (.modifier calls))) property := by
  refine Agree.spanned (point_agree.bind fun _ _ _ => ?_)
  exact agree_accept (Nat.le_succ _) (fun _ _ _ => agree_pure fun _ _ => rfl) agree_failMissing

theorem Alike.modifier (alike : Alike n n g g') (calls : Bool) :
    Agree (n + 1) Same (g.modifier calls) (g'.modifier calls) := by
  cases calls with
  | false => exact alike.index.either property_agree
  | true =>
    have call : Agree (n + 1) Same (Tree.ofArguments <$> g.arguments) (Tree.ofArguments <$> g'.arguments) :=
      alike.arguments.map fun _ _ same => congrArg Tree.ofArguments same
    exact call.either (alike.index.either property_agree)

theorem Alike.member (alike : Alike n n g g') : Agree (n + 1) Same g.member g'.member := by
  refine Agree.spanned ((alike.functionExpr.either alike.primary).bind fun target target' same => ?_)
  refine (alike.modifier false).many.bind fun list list' sameList => agree_pure fun _ _ => ?_
  exact congrArg₂ (Tree.member .zero) same (Same.ofList sameList)

theorem news_agree : Agree n (List.Forall₂ fun _ _ => True) news news := by
  refine Agree.loop (agree_offset.bind fun start start' _ => ?_)
  exact agree_take (Nat.le_succ _) (agree_pure ⟨.cons trivial .nil, rfl⟩) (agree_pure ⟨.nil, rfl⟩)

/-- Only the number of `new`s matters, not where they stand. -/
theorem Alike.pairNews (alike : Alike n n g g') :
    ∀ {starts starts' : List Nat} {target target' : Node .member}, starts.length = starts'.length →
      Same target target' → Agree (n + 1) (fun x y => x.1.length = y.1.length ∧ Same x.2 y.2)
        (g.pairNews starts target) (g'.pairNews starts' target') := by
  intro starts
  induction starts with
  | nil =>
    intro starts' target target' length same
    obtain rfl : starts' = [] := List.length_eq_zero_iff.mp length.symm
    exact agree_pure ⟨rfl, same⟩
  | cons start outer ih =>
    intro starts' target target' length same
    obtain _ | ⟨start', outer'⟩ := starts'
    · cases length
    · refine alike.arguments.optional.bind ?_
      rintro _ _ (⟨sameArgs⟩ | _)
      · refine agree_reached.bind fun stop stop' _ => ?_
        refine (alike.modifier false).many.bind fun list list' sameList => ?_
        have sameInstantiation := congrArg₂ (Tree.instantiation .zero) same sameArgs
        cases sameList with
        | nil => exact ih (by simpa using length) (congrArg Tree.ofInstantiation sameInstantiation)
        | cons head tail =>
          refine agree_reached.bind fun last last' _ => ?_
          refine ih (by simpa using length) ?_
          exact congrArg₂ (Tree.member .zero) (congrArg Tree.instantiated sameInstantiation)
            (Same.ofList (.cons head tail))
      · exact agree_pure ⟨length, same⟩

theorem Alike.lhs (alike : Alike n n g g') : Agree (n + 1) Same g.lhs g'.lhs := by
  refine Agree.spanned (news_agree.bind fun starts starts' sameStarts => ?_)
  refine alike.member.bind fun first first' sameFirst => ?_
  have lengths : starts.reverse.length = starts'.reverse.length := by simpa using sameStarts.length_eq
  refine (alike.pairNews lengths sameFirst).bind ?_
  rintro ⟨unpaired, target⟩ ⟨unpaired', target'⟩ ⟨length, same⟩
  cases unpaired with
  | nil =>
    obtain rfl : unpaired' = [] := List.length_eq_zero_iff.mp length.symm
    refine alike.arguments.optional.bind ?_
    rintro _ _ (⟨sameArgs⟩ | _)
    · refine (alike.modifier true).many.bind fun list list' sameList => agree_pure fun _ _ => ?_
      change Tree.call .zero _ _ _ = Tree.call .zero _ _ _
      rw [same, sameArgs, Same.ofList sameList]
    · exact agree_pure fun _ _ => congrArg (Tree.newExpr .zero 0) same
  | cons start rest =>
    obtain _ | ⟨start', rest'⟩ := unpaired'
    · cases length
    · exact agree_pure fun _ _ => congrArg₂ (Tree.newExpr .zero) length same

theorem Alike.update (alike : Alike n n g g') : Agree (n + 1) Same g.update g'.update := by
  refine Agree.spanned (alike.lhs.bind fun operand operand' same => ?_)
  refine agree_newlineAhead (agree_pure fun _ _ => congrArg (Tree.update .zero · none) same)
    (agree_accept (Nat.le_succ _) (fun _ op _ => agree_pure fun _ _ => congrArg (Tree.update .zero · op) same)
      (agree_pure fun _ _ => congrArg (Tree.update .zero · none) same)) ?_ ?_
  all_goals
    intro c ending
    have none : (accept UpdateOp.ofToken?).Gives c none c := by simp [ending, UpdateOp.ofToken?]
    exact result_eq_pure (bind_gives.mpr ⟨_, c, none, pure_gives.mpr ⟨rfl, rfl⟩⟩)

theorem Alike.unary (alike : Alike n n g g') : Agree (n + 1) Same g.unary g'.unary := by
  refine Agree.spanned (agree_manyTokens.bind fun ops ops' sameOps => ?_)
  refine alike.update.bind fun operand operand' same => agree_pure fun _ _ => ?_
  obtain rfl : ops = ops' := List.forall₂_eq_eq_eq ▸ sameOps
  exact congrArg (Tree.unary .zero ops) same

theorem level_agree {tier : Tier} {operand operand' : Parser (Node tier.operand)}
    (agree : Agree n Same operand operand') :
    Agree n Same (level tier allowIn operand) (level tier allowIn operand') := by
  refine Agree.spanned (agree.bind fun head head' same => ?_)
  refine Agree.bind (R := List.Forall₂ Same) (Agree.many ?_) fun list list' sameList => ?_
  · refine agree_offset.bind fun start start' _ => ?_
    refine agree_accept (Nat.le_succ _) (fun _ op _ => ?_) agree_fail
    exact agree.bind fun right right' same => agree_pure (congrArg (Tree.operation tier op 0) same)
  · exact agree_pure fun _ _ => congrArg₂ (Tree.level .zero tier) same (Same.ofList sameList)

theorem Alike.logicalOr (alike : Alike n n g g') :
    Agree (n + 1) Same (g.logicalOr allowIn) (g'.logicalOr allowIn) :=
  level_agree <| level_agree <| level_agree <| level_agree <| level_agree <| level_agree <|
    level_agree <| level_agree <| level_agree <| level_agree <| alike.unary

theorem Alike.cond (alike : Alike n n g g') : Agree (n + 1) Same (g.cond allowIn) (g'.cond allowIn) := by
  refine Agree.spanned (alike.logicalOr.bind fun test test' sameTest => ?_)
  refine agree_take (Nat.le_refl _) ?_ (agree_pure fun _ _ => congrArg (Tree.plain .zero) sameTest)
  refine (alike.assign true).bind fun yes yes' sameYes => agree_expect ?_
  refine (alike.assign allowIn).bind fun no no' sameNo => agree_pure fun _ _ => ?_
  change Tree.ternary .zero _ _ _ = Tree.ternary .zero _ _ _
  rw [sameTest, sameYes, sameNo]

theorem same_of_map_erase {kind : Kind} {node node' : Option (Node kind)}
    (same : node.map erase = node'.map erase) : Option.Rel Same node node' := by
  cases node <;> cases node' <;> simp only [Option.map_none, Option.map_some, reduceCtorEq,
    Option.some.injEq] at same
  · exact .none
  · exact .some same

theorem Alike.assignExpr (alike : Alike n n g g') :
    Agree (n + 1) Same (g.assignExpr allowIn) (g'.assignExpr allowIn) := by
  refine Agree.spanned (alike.cond.bind fun value value' same => ?_)
  have plain : ∀ s s', Same (Tree.assign s .nil value) (Tree.assign s' .nil value') :=
    fun _ _ => congrArg (Tree.assign .zero .nil) same
  have sameTarget : Option.Rel Same value.bareLhs? value'.bareLhs? :=
    same_of_map_erase (by rw [← bareLhs?_erase, ← bareLhs?_erase, same])
  generalize value.bareLhs? = target at sameTarget ⊢
  generalize value'.bareLhs? = target' at sameTarget ⊢
  cases sameTarget with
  | none => exact agree_pure plain
  | some sameLhs =>
    refine agree_accept (Nat.le_refl _) (fun _ op _ => ?_) (agree_pure plain)
    refine (alike.assign allowIn).bind fun rest rest' sameRest => agree_pure fun s s' => ?_
    rw [Same, addTarget_erase, addTarget_erase, sameLhs, sameRest]

end Expressions

section Statements

variable {n : Nat} {g g' : Grammar}

/-- Statements that are the same wherever they are placed. -/
abbrev SamePlaced (f f' : Span → Node .statement) : Prop := ∀ s s', Same (f s) (f' s')

theorem Alike.exprStmt {m : Nat} (alike : Alike m n g g') : Agree m SamePlaced g.exprStmt g'.exprStmt := by
  refine agree_ahead fun isFunction => ?_
  cases isFunction with
  | true => exact agree_fail.bind (R := fun _ _ => False) fun _ _ never => never.elim
  | false =>
    refine alike.sequence.bind fun expr expr' same => agree_expect (agree_pure fun _ _ => ?_)
    exact congrArg (Tree.exprStmt .zero) same

theorem Alike.declaration {allowIn : Bool} (alike : Alike n n g g') :
    Agree n Same (g.declaration allowIn) (g'.declaration allowIn) := by
  refine Agree.spanned (agree_identifier.bind fun name name' sameName => ?_)
  subst sameName
  refine agree_take (Nat.le_succ _) ?_ (agree_pure fun _ _ => rfl)
  refine (alike.assign allowIn).bind fun init init' same => agree_pure fun _ _ => ?_
  exact congrArg (Tree.declaration .zero name) (congrArg Tree.present same)

theorem Alike.varStmt (alike : Alike n n g g') : Agree (n + 1) SamePlaced g.varStmt g'.varStmt := by
  refine agree_require (alike.declaration.separated.bind fun list list' same => ?_)
  exact agree_expect (agree_pure fun _ _ => congrArg (Tree.varStmt .zero) (Same.ofList same))

theorem emptyStmt_agree : Agree (n + 1) SamePlaced emptyStmt emptyStmt :=
  agree_require (agree_pure fun _ _ => rfl)

theorem Alike.headExpr (alike : Alike n n g g') : Agree n Same g.headExpr g'.headExpr :=
  agree_expect (alike.sequence.bind fun _ _ same => agree_expect (agree_pure same))

theorem Alike.ifStmt (alike : Alike n n g g') : Agree (n + 1) SamePlaced g.ifStmt g'.ifStmt := by
  refine agree_require (alike.headExpr.bind fun cond cond' sameCond => ?_)
  refine alike.statement.bind fun yes yes' sameYes => ?_
  have otherwise : Agree n Same (do require (.word .kwElse); g.statement)
      (do require (.word .kwElse); g'.statement) :=
    (agree_require alike.statement).mono (Nat.le_succ n)
  refine otherwise.optional.bind fun no no' sameNo => agree_pure fun _ _ => ?_
  change Tree.ifStmt .zero _ _ _ = Tree.ifStmt .zero _ _ _
  rw [sameCond, sameYes, Same.ofOption sameNo]

theorem Alike.doWhile (alike : Alike n n g g') : Agree (n + 1) SamePlaced g.doWhile g'.doWhile := by
  refine agree_require (alike.statement.bind fun body body' sameBody => agree_expect ?_)
  refine alike.headExpr.bind fun cond cond' sameCond => agree_expect (agree_pure fun _ _ => ?_)
  exact congrArg₂ (Tree.doWhile .zero) sameBody sameCond

theorem Alike.whileStmt (alike : Alike n n g g') : Agree (n + 1) SamePlaced g.whileStmt g'.whileStmt := by
  refine agree_require (alike.headExpr.bind fun cond cond' sameCond => ?_)
  refine alike.statement.bind fun body body' sameBody => agree_pure fun _ _ => ?_
  exact congrArg₂ (Tree.whileStmt .zero) sameCond sameBody

theorem Alike.clause {allowIn : Bool} {closing : Symbol} (alike : Alike n n g g') :
    Agree n Same (g.clause allowIn closing) (g'.clause allowIn closing) := by
  refine agree_ahead fun isClosing => ?_
  cases isClosing with
  | true => exact agree_pure rfl
  | false => exact alike.sequence.bind fun expr expr' same => agree_pure (congrArg Tree.present same)

theorem Alike.loopRest (alike : Alike n n g g') :
    Agree n (fun x y => Same x.1 y.1 ∧ Same x.2.1 y.2.1 ∧ Same x.2.2 y.2.2) g.loopRest g'.loopRest := by
  refine alike.clause.bind fun cond cond' sameCond => agree_expect ?_
  refine alike.clause.bind fun post post' samePost => agree_expect ?_
  exact alike.statement.bind fun body body' sameBody => agree_pure ⟨sameCond, samePost, sameBody⟩

theorem Alike.keysRest (alike : Alike n n g g') :
    Agree n (fun x y => Same x.1 y.1 ∧ Same x.2 y.2) g.keysRest g'.keysRest := by
  refine alike.sequence.bind fun object object' sameObject => agree_expect ?_
  exact alike.statement.bind fun body body' sameBody => agree_pure ⟨sameObject, sameBody⟩

theorem endInit_agree {orIn : Bool} : Agree n Eq (endInit orIn) (endInit orIn) := by
  refine agree_probe (Nat.le_succ _) (agree_pure rfl) ?_
  intro c d _ _
  refine .inl ⟨?_, ?_⟩ <;> cases orIn <;> simp

theorem Alike.forVarLoop {decls decls' : List (Node .declaration)} (alike : Alike n n g g')
    (same : List.Forall₂ Same decls decls') : Agree n SamePlaced (g.forVarLoop decls) (g'.forVarLoop decls') := by
  refine alike.loopRest.bind ?_
  rintro ⟨cond, post, body⟩ ⟨cond', post', body'⟩ ⟨sameCond, samePost, sameBody⟩
  refine agree_pure fun _ _ => ?_
  change Tree.forVar .zero _ _ _ _ = Tree.forVar .zero _ _ _ _
  rw [Same.ofList same, sameCond, samePost, sameBody]

theorem Alike.forVarRest (alike : Alike n n g g') : Agree n SamePlaced g.forVarRest g'.forVarRest := by
  refine alike.declaration.separated.bind fun decls decls' same => ?_
  have loop : ∀ orIn, Agree n SamePlaced (endInit orIn >>= fun _ => g.forVarLoop decls)
      (endInit orIn >>= fun _ => g'.forVarLoop decls') :=
    fun orIn => endInit_agree.bind fun _ _ _ => alike.forVarLoop same
  cases same with
  | nil => exact loop false
  | cons sameDecl others =>
    cases others with
    | nil =>
      refine agree_take (Nat.le_succ _) (alike.keysRest.bind ?_) (loop true)
      rintro ⟨object, body⟩ ⟨object', body'⟩ ⟨sameObject, sameBody⟩
      refine agree_pure fun _ _ => ?_
      change Tree.forInVar .zero _ _ _ = Tree.forInVar .zero _ _ _
      rw [sameDecl, sameObject, sameBody]
    | cons _ _ => exact loop false

theorem Alike.forLoop {init init' : Tree (.optional .sequence)} (alike : Alike n n g g')
    (same : Same init init') : Agree n SamePlaced (g.forLoop init) (g'.forLoop init') := by
  refine alike.loopRest.bind ?_
  rintro ⟨cond, post, body⟩ ⟨cond', post', body'⟩ ⟨sameCond, samePost, sameBody⟩
  refine agree_pure fun _ _ => ?_
  change Tree.forStmt .zero _ _ _ _ = Tree.forStmt .zero _ _ _ _
  rw [same, sameCond, samePost, sameBody]

theorem Alike.forRest (alike : Alike n n g g') : Agree n SamePlaced g.forRest g'.forRest := by
  refine alike.clause.bind fun init init' same => ?_
  have loop : ∀ orIn, Agree n SamePlaced (endInit orIn >>= fun _ => g.forLoop init)
      (endInit orIn >>= fun _ => g'.forLoop init') :=
    fun orIn => endInit_agree.bind fun _ _ _ => alike.forLoop same
  have sameTarget : Option.Rel Same (initTarget? init) (initTarget? init') :=
    same_of_map_erase (by rw [← initTarget?_erase, ← initTarget?_erase, same])
  generalize initTarget? init = target at sameTarget ⊢
  generalize initTarget? init' = target' at sameTarget ⊢
  cases sameTarget with
  | none => exact loop false
  | some sameLhs =>
    refine agree_take (Nat.le_succ _) (alike.keysRest.bind ?_) (loop true)
    rintro ⟨object, body⟩ ⟨object', body'⟩ ⟨sameObject, sameBody⟩
    refine agree_pure fun _ _ => ?_
    change Tree.forIn .zero _ _ _ = Tree.forIn .zero _ _ _
    rw [sameLhs, sameObject, sameBody]

theorem Alike.forStmt (alike : Alike n n g g') : Agree (n + 1) SamePlaced g.forStmt g'.forStmt :=
  agree_require (agree_expect (agree_take (Nat.le_succ _) alike.forVarRest alike.forRest))

theorem label_agree : Agree n Eq label label := by
  refine agree_newlineAhead (agree_pure rfl) agree_identifier? ?_ ?_
  all_goals
    intro c ending
    exact result_eq_pure (accept_gives_none.mpr ⟨by simp [ending, nameOf?], rfl⟩)

theorem continueStmt_agree : Agree (n + 1) SamePlaced continueStmt continueStmt := by
  refine agree_require (label_agree.bind fun label label' same => agree_expect (agree_pure fun _ _ => ?_))
  exact congrArg (Tree.continueStmt .zero) same

theorem breakStmt_agree : Agree (n + 1) SamePlaced breakStmt breakStmt := by
  refine agree_require (label_agree.bind fun label label' same => agree_expect (agree_pure fun _ _ => ?_))
  exact congrArg (Tree.breakStmt .zero) same

/-- At the end of the source no expression starts. -/
theorem noExpression_of_ending {c : Cursor} (ending : c.next? = some .ending) : c.NoExpression := by
  rintro t next
  cases ending.symm.trans next
  rfl

theorem Alike.returnValue (alike : Alike n n g g') :
    Agree n (Option.Rel Same) g.returnValue g'.returnValue := by
  refine agree_newlineAhead (agree_pure .none) alike.sequence.optional ?_ ?_
  · intro c ending
    have stuck := g.sequence_fails (alike.stuck c (noExpression_of_ending ending))
    exact result_eq_pure (optional_gives.mpr (.inr ⟨rfl, stuck, rfl⟩))
  · intro c ending
    have stuck := g'.sequence_fails (alike.stuck' c (noExpression_of_ending ending))
    exact result_eq_pure (optional_gives.mpr (.inr ⟨rfl, stuck, rfl⟩))

theorem Alike.returnStmt (alike : Alike n n g g') :
    Agree (n + 1) SamePlaced g.returnStmt g'.returnStmt := by
  refine agree_require (alike.returnValue.bind fun value value' same => ?_)
  exact agree_expect (agree_pure fun _ _ => congrArg (Tree.returnStmt .zero) (Same.ofOption same))

theorem Alike.withStmt (alike : Alike n n g g') : Agree (n + 1) SamePlaced g.withStmt g'.withStmt := by
  refine agree_require (alike.headExpr.bind fun object object' sameObject => ?_)
  refine alike.statement.bind fun body body' sameBody => agree_pure fun _ _ => ?_
  exact congrArg₂ (Tree.withStmt .zero) sameObject sameBody

theorem Alike.labeled (alike : Alike n n g g') : Agree (n + 1) SamePlaced g.labeled g'.labeled := by
  refine agree_accept (Nat.le_refl _) (fun _ label _ => agree_expect ?_) agree_fail
  exact alike.statement.bind fun body body' same => agree_pure fun _ _ => congrArg (Tree.labeled .zero label) same

theorem Alike.caseClauses (alike : Alike n n g g') :
    Agree n (List.Forall₂ Same) g.caseClauses g'.caseClauses := by
  refine Agree.loop (agree_offset.bind fun start start' _ => ?_)
  refine agree_take (Nat.le_succ _) ?_ (agree_pure ⟨.nil, rfl⟩)
  refine alike.sequence.bind fun value value' sameValue => agree_expect ?_
  refine alike.statement.many.bind fun body body' sameBody => agree_reached.bind fun stop stop' _ => ?_
  exact agree_pure ⟨.cons (congrArg₂ (Tree.caseClause .zero) sameValue (Same.ofList sameBody)) .nil, rfl⟩

theorem Alike.defaultClause (alike : Alike n n g g') :
    Agree n Same g.defaultClause g'.defaultClause := by
  refine (Agree.spanned (agree_require (agree_expect ?_))).mono (Nat.le_succ n)
  refine alike.statement.many.bind fun body body' same => agree_pure fun _ _ => ?_
  exact congrArg (Tree.defaultClause .zero) (Same.ofList same)

theorem Alike.fallback (alike : Alike n n g g') :
    Agree n (fun x y => Same x.1 y.1 ∧ List.Forall₂ Same x.2 y.2) g.fallback g'.fallback := by
  refine alike.defaultClause.optional.bind ?_
  rintro _ _ (⟨same⟩ | _)
  · refine alike.caseClauses.bind fun trailing trailing' sameTrailing => ?_
    exact agree_pure ⟨congrArg Tree.present same, sameTrailing⟩
  · exact agree_pure ⟨rfl, .nil⟩

theorem Alike.switchStmt (alike : Alike n n g g') :
    Agree (n + 1) SamePlaced g.switchStmt g'.switchStmt := by
  refine agree_require (alike.headExpr.bind fun tag tag' sameTag => agree_expect ?_)
  refine alike.caseClauses.bind fun cases cases' sameCases => alike.fallback.bind ?_
  rintro ⟨fallback, trailing⟩ ⟨fallback', trailing'⟩ ⟨sameFallback, sameTrailing⟩
  refine agree_expect (agree_pure fun _ _ => ?_)
  change Tree.switchStmt .zero _ _ _ _ = Tree.switchStmt .zero _ _ _ _
  rw [sameTag, Same.ofList sameCases, sameFallback, Same.ofList sameTrailing]

theorem Alike.throwStmt (alike : Alike n n g g') : Agree (n + 1) SamePlaced g.throwStmt g'.throwStmt := by
  refine agree_require (agree_newlineAhead ?_ ?_ ?_ ?_)
  · exact agree_failMissing.bind (R := fun _ _ => False) fun _ _ never => never.elim
  · refine alike.sequence.bind fun value value' same => agree_expect (agree_pure fun _ _ => ?_)
    exact congrArg (Tree.throwStmt .zero) same
  · intro c ending
    have stuck := g.sequence_fails (alike.stuck c (noExpression_of_ending ending))
    exact bind_fails.mpr (.inl stuck)
  · intro c ending
    have stuck := g'.sequence_fails (alike.stuck' c (noExpression_of_ending ending))
    exact bind_fails.mpr (.inl stuck)

theorem Alike.block (alike : Alike n n g g') : Agree (n + 1) Same g.block g'.block := by
  refine Agree.spanned (agree_expect_first (alike.statement.many.bind fun list list' same => ?_))
  exact agree_expect (agree_pure fun _ _ => congrArg (Tree.block .zero) (Same.ofList same))

theorem catchParam_agree : Agree n Eq catchParam catchParam :=
  agree_expect (agree_identifier.bind fun _ _ same => agree_expect (agree_pure same))

theorem Alike.handler (alike : Alike n n g g') : Agree n (Option.Rel Same) g.handler g'.handler := by
  refine agree_offset.bind fun start start' _ => agree_probe (Nat.le_succ _) ?_ (agree_pure .none)
  refine catchParam_agree.bind fun param param' sameParam => (alike.block.mono (Nat.le_succ n)).bind fun body body' same => ?_
  refine agree_reached.bind fun stop stop' _ => agree_pure (.some ?_)
  exact congrArg₂ (Tree.catchClause .zero) sameParam same

theorem Alike.cleanup (alike : Alike n n g g') : Agree n (Option.Rel Same) g.cleanup g'.cleanup :=
  agree_probe (Nat.le_succ _) ((alike.block.mono (Nat.le_succ n)).map fun _ _ same => .some same) (agree_pure .none)

theorem Alike.tryStmt (alike : Alike n n g g') : Agree (n + 1) SamePlaced g.tryStmt g'.tryStmt := by
  refine agree_require ((alike.block.mono (Nat.le_succ n)).bind fun body body' sameBody => ?_)
  refine alike.handler.bind fun handler handler' sameHandler => ?_
  refine alike.cleanup.bind fun cleanup cleanup' sameCleanup => ?_
  have built : Agree n SamePlaced
      (pure fun span => Tree.tryStmt span body (.ofOption handler) (.ofOption cleanup))
      (pure fun span => Tree.tryStmt span body' (.ofOption handler') (.ofOption cleanup')) := by
    refine agree_pure fun _ _ => ?_
    change Tree.tryStmt .zero _ _ _ = Tree.tryStmt .zero _ _ _
    rw [sameBody, Same.ofOption sameHandler, Same.ofOption sameCleanup]
  cases sameHandler with
  | some _ => exact built
  | none =>
    cases sameCleanup with
    | some _ => exact built
    | none => exact agree_fail.bind (R := fun _ _ => False) fun _ _ never => never.elim

theorem debugger_agree : Agree (n + 1) SamePlaced debugger debugger :=
  agree_require (agree_expect (agree_pure fun _ _ => rfl))

theorem Alike.blockStmt (alike : Alike n n g g') : Agree (n + 1) Same g.blockStmt g'.blockStmt := by
  refine agree_ahead fun isBrace => ?_
  cases isBrace with
  | true => exact alike.block.map fun _ _ same => congrArg Tree.ofBlock same
  | false => exact agree_fail

theorem Alike.statementForm (alike : Alike (n + 1) n g g') :
    Agree (n + 1) Same g.statementForm g'.statementForm := by
  have inner := alike.mono (Nat.le_succ n) (Nat.le_refl n)
  exact alike.exprStmt.spanned.either <| inner.varStmt.spanned.either <| emptyStmt_agree.spanned.either <|
    inner.ifStmt.spanned.either <| inner.doWhile.spanned.either <| inner.whileStmt.spanned.either <|
    inner.forStmt.spanned.either <| continueStmt_agree.spanned.either <| breakStmt_agree.spanned.either <|
    inner.returnStmt.spanned.either <| inner.withStmt.spanned.either <| inner.labeled.spanned.either <|
    inner.switchStmt.spanned.either <| inner.throwStmt.spanned.either <| inner.tryStmt.spanned.either <|
    debugger_agree.spanned.either inner.blockStmt

theorem Alike.funcDecl (alike : Alike n n g g') : Agree (n + 1) Same g.funcDecl g'.funcDecl := by
  refine Agree.spanned (agree_require ?_)
  refine agree_identifier.bind fun name name' sameName => ?_
  refine params_agree.bind fun params params' sameParams => ?_
  refine alike.functionBody.bind fun body body' same => agree_pure fun _ _ => ?_
  subst sameName sameParams
  exact congrArg (Tree.funcDecl .zero name params) same

/-- One more level of nesting is good for one more lexeme. -/
theorem Alike.deepen (alike : Alike n n g g') : Alike (n + 1) (n + 1) g.deepen g'.deepen := by
  have forms : Alike (n + 1) n ⟨g.assignExpr, g.statement, g.element⟩
      ⟨g'.assignExpr, g'.statement, g'.element⟩ :=
    ⟨fun _ => g.assignExpr_fails, fun _ => g'.assignExpr_fails, fun _ => alike.assignExpr, alike.statement,
      alike.element⟩
  have statement := forms.statementForm
  exact ⟨fun _ => g.assignExpr_fails, fun _ => g'.assignExpr_fails, fun _ => alike.assignExpr, statement,
    alike.funcDecl.either (statement.map fun _ _ same => congrArg Tree.ofStatement same)⟩

end Statements

/-- Grammars that may nest as deep as there are lexemes agree. -/
theorem ofDepth_alike : ∀ {n d d' : Nat}, n ≤ d → n ≤ d' → Alike n n (ofDepth d) (ofDepth d') := by
  intro n
  induction n with
  | zero =>
    intro d d' _ _
    -- Nothing is left, so nothing starts and all parsers fail.
    have empty : ∀ c : Cursor, c.rest.length ≤ 0 → c.next? = none := by
      rintro ⟨_, _ | _⟩ short
      · rfl
      · cases short
    have noStart : ∀ c : Cursor, c.rest.length ≤ 0 → c.NoStatement :=
      fun c short t next => by simp [empty c short] at next
    refine ⟨fun _ => assign_fails, fun _ => assign_fails, fun _ => ?_, ?_, ?_⟩
    · intro c e alike short
      have short' := alike.length_eq ▸ short
      exact .inl ⟨assign_fails (noStart c short).noExpression, assign_fails (noStart e short').noExpression⟩
    · intro c e alike short
      have short' := alike.length_eq ▸ short
      exact .inl ⟨statement_fails (noStart c short), statement_fails (noStart e short')⟩
    · intro c e alike short
      have short' := alike.length_eq ▸ short
      exact .inl ⟨element_fails (noStart c short), element_fails (noStart e short')⟩
  | succ n ih =>
    intro d d' deep deep'
    obtain ⟨d, rfl⟩ := Nat.exists_eq_add_of_le' deep
    obtain ⟨d', rfl⟩ := Nat.exists_eq_add_of_le' deep'
    exact (ih (Nat.le_add_left n d) (Nat.le_add_left n d')).deepen

/-- Where a statement cannot be read at a sufficient depth, it cannot be read at any other. -/
theorem statement_fails_of_depth {d d' : Nat} {c : Cursor} (deep : c.rest.length ≤ d)
    (deep' : c.rest.length ≤ d') (stuck : (ofDepth d).statement.Fails c) :
    (ofDepth d').statement.Fails c := by
  rcases (ofDepth_alike deep deep').statement c c (Cursor.Alike.refl c) (Nat.le_refl _) with
    ⟨_, stuck'⟩ | ⟨v, after, _, _, run, _⟩
  · exact stuck'
  · exact absurd stuck run.not_fails

end Grammar

end EcmaFold
