import EcmaFold.Descent.Statement
import EcmaFold.Proofs.Descent.Expression

/-!
Every production of statements and source elements follows that of the grammar of the source, and so do the productions
at any depth of nesting, with as many lexemes left as the depth.
-/

namespace EcmaFold

namespace Descent

variable {source : Bytes} {n m : Nat} {allowIn : Bool} {x y : Place}

theorem follows_emptyStmt : Follows source (n + 1) allowIn x .close emptyStmt Grammar.emptyStmt :=
  follows_require (by decide) follows_pure

theorem follows_label : Follows source n allowIn .close .close label Grammar.label := by
  refine follows_newlineAhead.bind fun breaks => ?_
  cases breaks with
  | true => exact follows_pure
  | false => exact probes_identifier.follows_self

/-- A jump to a label, which has to stand on the same line. -/
theorem follows_jump {build : Option Bytes → Span → Node .statement} {word : Word} :
    Follows source (n + 1) allowIn x .close
      (do
        require (.word word)
        let label ← label
        expect (.punct .semicolon)
        return build label)
      (do
        Parser.require (.word word)
        let label ← Grammar.label
        Parser.expect (.punct .semicolon)
        return build label) :=
  follows_require (by rintro ⟨⟩) (follows_label.bind fun _ => follows_expect (by decide) follows_pure)

theorem follows_catchParam : Follows source n allowIn x .close catchParam Grammar.catchParam :=
  follows_expect (by decide) (follows_identifier.bind fun _ => follows_expect (by decide) follows_pure)

theorem follows_debugger : Follows source (n + 1) allowIn x .close debugger Grammar.debugger :=
  follows_require (by decide) (follows_expect (by decide) follows_pure)

theorem follows_endInit {orIn : Bool} : Follows source n allowIn x .close (endInit orIn) (Grammar.endInit orIn) := by
  refine follows_probe (by decide) (Nat.le_succ n) follows_pure ?_
  cases orIn with
  | true => exact (follows_miss (x := x)).bind fun _ => follows_fail
  | false => exact follows_fail

namespace Productions

variable {g : Productions}

/-! Expressions and declarations -/

theorem Following.exprStmt (following : Following source m n g) :
    Follows source m true .loose .close g.exprStmt (Grammar.ofSource source).exprStmt := by
  refine (follows_ahead (by decide)).bind fun isFunction => ?_
  cases isFunction with
  | true => exact follows_fail_bind
  | false => exact following.sequence.bind fun expr => follows_expect (by decide) follows_pure

theorem Following.declaration (following : Following source n n g) :
    Follows source n allowIn x .close g.declaration ((Grammar.ofSource source).declaration allowIn) := by
  refine Follows.spanned (follows_identifier.bind fun name => ?_)
  refine follows_take (by decide) (Nat.le_succ n) ?_ follows_pure
  exact (following.assign allowIn).close.bind fun init => follows_pure

theorem Following.declarations (following : Following source n n g) : Follows source n allowIn x .close
    (Descent.separated g.declaration) (Parser.separated ((Grammar.ofSource source).declaration allowIn)) :=
  following.declaration.separated (Grammar.Loop.declarations allowIn).shortens

theorem Following.varStmt (following : Following source n n g) :
    Follows source (n + 1) true x .close g.varStmt (Grammar.ofSource source).varStmt := by
  refine follows_require (by decide) (following.declarations.bind fun list => ?_)
  exact follows_expect (by decide) follows_pure

/-! Conditions and loops -/

theorem Following.headExpr (following : Following source n n g) :
    Follows source n true x .close g.headExpr (Grammar.ofSource source).headExpr := by
  refine follows_expect (by decide) (following.sequence.bind fun expr => ?_)
  exact follows_expect (by decide) follows_pure

theorem Following.ifStmt (following : Following source n n g) :
    Follows source (n + 1) true x .close g.ifStmt (Grammar.ofSource source).ifStmt := by
  refine follows_require (by decide) (following.headExpr.bind fun cond => following.statement.close.bind fun yes => ?_)
  refine Follows.bind (y := .close) (Follows.optional (Follows.mono ?_ (Nat.le_succ n))) fun no => follows_pure
  exact follows_require (by decide) following.statement.close

theorem Following.doWhile (following : Following source n n g) :
    Follows source (n + 1) true x .close g.doWhile (Grammar.ofSource source).doWhile := by
  refine follows_require (by decide) (following.statement.close.bind fun body => follows_expect (by decide) ?_)
  exact following.headExpr.bind fun cond => follows_expect (by decide) follows_pure

/-- A statement with a condition or an object in parentheses in front of its body. -/
theorem Following.headed (following : Following source n n g)
    {build : Node .sequence → Node .statement → Span → Node .statement} {word : Word} :
    Follows source (n + 1) true x .close
      (do
        require (.word word)
        let expr ← g.headExpr
        let body ← g.statement
        return build expr body)
      (do
        Parser.require (.word word)
        let expr ← (Grammar.ofSource source).headExpr
        let body ← (Grammar.ofSource source).statement
        return build expr body) := by
  refine follows_require (by rintro ⟨⟩) (following.headExpr.bind fun expr => ?_)
  exact following.statement.close.bind fun body => follows_pure

theorem Following.whileStmt (following : Following source n n g) :
    Follows source (n + 1) true x .close g.whileStmt (Grammar.ofSource source).whileStmt := following.headed

theorem Following.withStmt (following : Following source n n g) :
    Follows source (n + 1) true x .close g.withStmt (Grammar.ofSource source).withStmt := following.headed

theorem Following.clause (following : Following source n n g) {closing : Symbol} (noDot : closing ≠ .punct .dot) :
    Follows source n allowIn .close .close (g.clause closing) ((Grammar.ofSource source).clause allowIn closing) := by
  refine (follows_ahead noDot).bind fun isClosing => ?_
  cases isClosing with
  | true => exact follows_pure
  | false => exact following.sequence.bind fun expr => follows_pure

theorem Following.loopRest (following : Following source n n g) :
    Follows source n true .close .close g.loopRest (Grammar.ofSource source).loopRest := by
  refine (following.clause (by decide)).bind fun cond => follows_expect (by decide) ?_
  refine (following.clause (by decide)).bind fun post => follows_expect (by decide) ?_
  exact following.statement.close.bind fun body => follows_pure

theorem Following.keysRest (following : Following source n n g) :
    Follows source n true x .close g.keysRest (Grammar.ofSource source).keysRest := by
  refine following.sequence.bind fun object => follows_expect (by decide) ?_
  exact following.statement.close.bind fun body => follows_pure

theorem Following.forVarLoop (following : Following source n n g) (decls : List (Node .declaration)) :
    Follows source n true .close .close (g.forVarLoop decls) ((Grammar.ofSource source).forVarLoop decls) :=
  following.loopRest.bind fun _ => follows_pure

theorem Following.forVarRest (following : Following source n n g) :
    Follows source n true x .close g.forVarRest (Grammar.ofSource source).forVarRest := by
  refine Follows.bind (Follows.withIn following.declarations) fun decls => ?_
  have loop (orIn : Bool) : Follows source n true .close .close (endInit orIn >>= fun _ => g.forVarLoop decls)
      (Grammar.endInit orIn >>= fun _ => (Grammar.ofSource source).forVarLoop decls) :=
    follows_endInit.bind fun _ => following.forVarLoop decls
  rcases decls with _ | ⟨decl, _ | ⟨_, _⟩⟩
  · exact loop false
  · exact follows_take (by decide) (Nat.le_succ n) (following.keysRest.bind fun _ => follows_pure) (loop true)
  · exact loop false

theorem Following.forLoop (following : Following source n n g) (init : Tree (.optional .sequence)) :
    Follows source n true .close .close (g.forLoop init) ((Grammar.ofSource source).forLoop init) :=
  following.loopRest.bind fun _ => follows_pure

theorem Following.forRest (following : Following source n n g) :
    Follows source n true .close .close g.forRest (Grammar.ofSource source).forRest := by
  refine Follows.bind (Follows.withIn (following.clause (by decide))) fun init => ?_
  have loop (orIn : Bool) : Follows source n true .close .close (endInit orIn >>= fun _ => g.forLoop init)
      (Grammar.endInit orIn >>= fun _ => (Grammar.ofSource source).forLoop init) :=
    follows_endInit.bind fun _ => following.forLoop init
  cases Grammar.initTarget? init with
  | none => exact loop false
  | some lhs =>
    exact follows_take (by decide) (Nat.le_succ n) (following.keysRest.bind fun _ => follows_pure) (loop true)

theorem Following.forStmt (following : Following source n n g) :
    Follows source (n + 1) true x .close g.forStmt (Grammar.ofSource source).forStmt := by
  refine follows_require (by decide) (follows_expect (by decide) ?_)
  exact follows_take (by decide) (Nat.le_succ n) following.forVarRest following.forRest

/-! Values and labels -/

theorem Following.returnValue (following : Following source n n g) :
    Follows source n true .close .close g.returnValue (Grammar.ofSource source).returnValue := by
  refine follows_newlineAhead.bind fun breaks => ?_
  cases breaks with
  | true => exact follows_pure
  | false => exact following.sequence.optional

theorem Following.returnStmt (following : Following source n n g) :
    Follows source (n + 1) true x .close g.returnStmt (Grammar.ofSource source).returnStmt := by
  refine follows_require (by decide) (following.returnValue.bind fun value => ?_)
  exact follows_expect (by decide) follows_pure

theorem Following.throwStmt (following : Following source n n g) :
    Follows source (n + 1) true x .close g.throwStmt (Grammar.ofSource source).throwStmt := by
  refine follows_require (by decide) (follows_newlineAhead.bind fun breaks => ?_)
  cases breaks with
  | true => exact follows_failMissing_bind
  | false => exact following.sequence.bind fun value => follows_expect (by decide) follows_pure

theorem Following.labeled (following : Following source n n g) :
    Follows source (n + 1) true x .close g.labeled (Grammar.ofSource source).labeled := by
  refine probes_identifier.follows (Nat.le_refl _) (fun _ label _ => follows_expect (by decide) ?_) follows_fail
  exact following.statement.close.bind fun body => follows_pure

/-! Blocks -/

theorem Following.statements (following : Following source n n g) :
    Follows source n true .close .close (many g.statement) (Parser.many (Grammar.ofSource source).statement) :=
  following.statement.close.many Grammar.Loop.statements.shortens

/-- Behind the last case the cursor may already stand at what follows. -/
theorem Following.caseClauses (following : Following source n n g) :
    Follows source n true x .loose g.caseClauses (Grammar.ofSource source).caseClauses := by
  refine (Follows.loop (follows_start.bind fun start => ?_) Grammar.Loop.cases.shortens).close
  refine follows_take (by decide) (Nat.le_succ n) (following.sequence.bind fun value => ?_) follows_pure
  refine follows_expect (by decide) (following.statements.bind fun body => follows_mark.bind fun stop => ?_)
  exact follows_pure.loosen

theorem Following.defaultClause (following : Following source n n g) :
    Follows source n true x .close g.defaultClause (Grammar.ofSource source).defaultClause := by
  refine (Follows.spanned (follows_require (by decide) (follows_expect (by decide) ?_))).mono (Nat.le_succ n)
  exact following.statements.bind fun body => follows_pure

theorem Following.fallback (following : Following source n n g) :
    Follows source n true .loose .loose g.fallback (Grammar.ofSource source).fallback := by
  refine following.defaultClause.optional.bind fun clause => ?_
  cases clause with
  | none => exact follows_pure
  | some clause => exact following.caseClauses.bind fun trailing => follows_pure

theorem Following.switchStmt (following : Following source n n g) :
    Follows source (n + 1) true x .close g.switchStmt (Grammar.ofSource source).switchStmt := by
  refine follows_require (by decide) (following.headExpr.bind fun tag => follows_expect (by decide) ?_)
  refine following.caseClauses.bind fun cases => following.fallback.bind fun ⟨fallback, trailing⟩ => ?_
  exact follows_expect (by decide) follows_pure

theorem Following.block (following : Following source n n g) :
    Follows source (n + 1) true x .close g.block (Grammar.ofSource source).block := by
  refine Follows.spanned (follows_expect_first (by decide) (following.statements.bind fun list => ?_))
  exact follows_expect (by decide) follows_pure

/-- Where there is no handler, the cursor is moved back in front of the trivia. -/
theorem Following.handler (following : Following source n n g) :
    Follows source n true .close .close g.handler (Grammar.ofSource source).handler := by
  intro s c meets short
  have catching (start : Nat) : Follows source n true .close .close
      (do
        let param ← catchParam
        let body ← g.block
        let stop ← mark
        return some (Tree.catchClause ⟨start, stop⟩ param body))
      (do
        let param ← Grammar.catchParam
        let body ← (Grammar.ofSource source).block
        let stop ← Parser.reached
        return some (Tree.catchClause ⟨start, stop⟩ param body)) :=
    follows_catchParam.bind fun param => (following.block.mono (Nat.le_succ n)).bind fun body =>
      follows_mark.bind fun stop => follows_pure
  have marked : mark s = (some s.scanner.offset, s) := rfl
  rw [Productions.handler, bind_of_some marked, Grammar.handler]
  refine (follows_start s c meets short).bind ?_
  rintro _ _ ⟨⟩ skipped -
  rw [probe_eq, take_bind, Parser.probe_eq, parser_take_bind]
  have noDot : Symbol.word .kwCatch ≠ .punct .dot := by decide
  rcases probes_find noDot .loose _ c skipped with
    ⟨token, v, after, left, steps, selected, run, behind, same⟩ | ⟨none, run⟩
  · rw [bind_of_some run, Parser.accept_bind_of_steps steps selected]
    have length := steps.rest_length
    exact (catching _ left after behind (by omega)).before same (by omega)
  · rw [bind_of_some run, Parser.accept_bind_of_none none]
    refine ⟨rfl, skipped.sameSource, meets.sameIn, ?_, ?_⟩
    · change Failure.merge s.failure (some ⟨(start s).2.scanner.skip.offset, [.symbol (.word .kwCatch)]⟩) = _
      rw [skipped.skip]
      rfl
    · rintro _ _ ⟨⟩
      exact ⟨meets.reset skipped.sameSource meets.sameIn, Nat.le_refl _⟩

theorem Following.cleanup (following : Following source n n g) :
    Follows source n true .close .close g.cleanup (Grammar.ofSource source).cleanup :=
  follows_probe (by decide) (Nat.le_succ n) (following.block.mono (Nat.le_succ n)).map follows_pure

theorem Following.tryStmt (following : Following source n n g) :
    Follows source (n + 1) true x .close g.tryStmt (Grammar.ofSource source).tryStmt := by
  refine follows_require (by decide) ((following.block.mono (Nat.le_succ n)).bind fun body => ?_)
  refine following.handler.bind fun handler => following.cleanup.bind fun cleanup => ?_
  cases handler.isNone && cleanup.isNone with
  | true => exact follows_fail_bind
  | false => exact follows_pure

theorem Following.blockStmt (following : Following source n n g) :
    Follows source (n + 1) true .loose .close g.blockStmt (Grammar.ofSource source).blockStmt := by
  refine (follows_ahead (by decide)).bind fun isBrace => ?_
  cases isBrace with
  | true => exact following.block.map
  | false => exact follows_fail

/-! Statements and source elements -/

theorem Following.statementForm (following : Following source (n + 1) n g) :
    Follows source (n + 1) true .loose .close g.statementForm (Grammar.ofSource source).statementForm := by
  have inner := following.mono (Nat.le_succ n) (Nat.le_refl n)
  exact following.exprStmt.spanned.either <| inner.varStmt.spanned.either <| follows_emptyStmt.spanned.either <|
    inner.ifStmt.spanned.either <| inner.doWhile.spanned.either <| inner.whileStmt.spanned.either <|
    inner.forStmt.spanned.either <| follows_jump.spanned.either <| follows_jump.spanned.either <|
    inner.returnStmt.spanned.either <| inner.withStmt.spanned.either <| inner.labeled.spanned.either <|
    inner.switchStmt.spanned.either <| inner.throwStmt.spanned.either <| inner.tryStmt.spanned.either <|
    follows_debugger.spanned.either inner.blockStmt

theorem Following.funcDecl (following : Following source n n g) :
    Follows source (n + 1) true x .close g.funcDecl (Grammar.ofSource source).funcDecl := by
  refine Follows.spanned (follows_require (by decide) (follows_identifier.bind fun name => ?_))
  exact follows_params.bind fun params => following.functionBody.bind fun body => follows_pure

/-- One more level of nesting is good for one more lexeme. -/
theorem Following.deepen (following : Following source n n g) : Following source (n + 1) (n + 1) g.deepen := by
  have assign (allowIn : Bool) : Follows source (n + 1) allowIn .loose .close g.assignExpr
      ((Grammar.ofSource source).assign allowIn) :=
    following.assignExpr.congr fun c of => (Grammar.body_ofSource (.assign allowIn) of).symm
  have forms : Following source (n + 1) n ⟨g.assignExpr, g.statement, g.element⟩ :=
    ⟨assign, following.statement, following.element⟩
  have statement : Follows source (n + 1) true .loose .close g.deepen.statement (Grammar.ofSource source).statement :=
    forms.statementForm.congr fun c of => (Grammar.body_ofSource .statement of).symm
  refine ⟨assign, statement, (following.funcDecl.either statement.map).congr fun c of => ?_⟩
  exact (Grammar.body_ofSource .element of).symm

/-- The productions follow the grammar of the source as far down as they nest. -/
theorem ofDepth_following (source : Bytes) (depth : Nat) : Following source depth depth (ofDepth depth) := by
  induction depth with
  | zero =>
    have nothing {α : Type} {allowIn : Bool} {d : Descent α} {p : Parser α} :
        Follows source 0 allowIn .loose .close d p := fun _ _ meets short =>
      absurd (List.length_eq_zero_iff.mp (Nat.le_zero.mp short)) meets.scanned.of.ne_nil
    exact ⟨fun _ => nothing, nothing, nothing⟩
  | succ depth ih => exact ih.deepen

end Productions

end Descent

end EcmaFold
