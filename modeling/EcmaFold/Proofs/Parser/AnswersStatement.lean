import EcmaFold.Proofs.Parser.AnswersExpression

/-!
Every production of statements and source elements answers, and so does the grammar at any depth of nesting that is
enough for the lexemes left. A source element is told why it fails although a statement need not be: in front of
`function` the declaration is, and everywhere else the expression.
-/

namespace EcmaFold

namespace Parser

variable {α : Type} {source : Bytes} {n : Nat} {R : α → Nat → Prop}

theorem spanned_of_fails {p : Parser (Span → α)} {c : Cursor} (stuck : p.Fails c) :
    spanned p c = ⟨none, (p c).failure⟩ := by
  change (offset >>= fun start => p >>= fun build => reached >>= fun stop => pure (build ⟨start, stop⟩)) c = _
  have asked : offset.Gives c c.offset c := rfl
  rw [bind_of_gives asked, bind_of_fails stuck]
  rfl

/-- Behind a symbol that is there, a rule is told why it fails if its rest is. -/
theorem Answers.require_reports {symbol : Symbol} {p q : Parser α} (rest : Answers source n true R p q) {c : Cursor}
    {t : Token} (of : c.Of source) (short : c.rest.length ≤ n + 1) (next : c.next? = some t)
    (spelled : symbol.isSpelled t = true) (stuck : (require symbol >>= fun _ => p).Fails c) :
    Failure.Reported c.offset ((require symbol >>= fun _ => p) c).failure := by
  -- Where the symbol is next, it makes no difference whether its absence would be told.
  have same : (require symbol >>= fun _ => p) c = (expect symbol >>= fun _ => p) c := by
    obtain ⟨after, step⟩ := Cursor.exists_steps next
    have taken : (take symbol).Gives c true after := take_gives_true.mpr ⟨t, step, spelled⟩
    rw [require_eq, expect_eq, bind_of_gives taken, bind_of_gives taken]
    rfl
  have told : Answers source (n + 1) true (fun _ _ => True) (expect symbol >>= fun _ => p)
      (expect symbol >>= fun _ => q) := answers_expect_first (rest.weaken (fun _ _ _ => trivial) id)
  unfold Fails at stuck
  rw [same] at stuck ⊢
  exact (told c of short).2.reports rfl stuck

end Parser

namespace Grammar

open EcmaFold.Parser EcmaFold.Tree

variable {source : Bytes} {m n : Nat} {told : Bool} {g g' : Grammar} {allowIn : Bool}

/-- A statement that takes a lexeme and is good wherever it is placed. -/
abbrev Built (source : Bytes) (build : Span → Node .statement) (taken : Nat) : Prop :=
  ∀ span, Eats (Faithful source) (build span) taken

/-! Expressions and declarations -/

/-- An expression with the semicolon behind it. -/
theorem Answering.terminated (answering : Answering source m n g g') {build : Node .sequence → Span → Node .statement} :
    Answers source m true (fun found taken => ∃ expr, expr.Faithful source ∧ found = build expr ∧ 1 ≤ taken)
      (do
        let expr ← g.sequence true
        expect (.punct .semicolon)
        return build expr)
      (do
        let expr ← g'.sequence true
        expect (.punct .semicolon)
        return build expr) := by
  refine answering.sequence.bind ?_
  rintro expr taken ⟨good, positive⟩
  exact answers_expect (answers_pure ⟨expr, good, rfl, by omega⟩)

theorem Answering.exprStmt (answering : Answering source m n g g') :
    Answers source m false
      (fun build taken => ∃ expr, expr.Faithful source ∧ build = (Tree.exprStmt · expr) ∧ 1 ≤ taken) g.exprStmt g'.exprStmt := by
  refine answers_ahead fun isFunction => ?_
  cases isFunction with
  | true => exact answers_fail.bind (R := fun _ _ => False) fun _ _ never => never.elim
  | false => exact answering.terminated.quiet

/-- An expression statement begins with a lexeme that is not `function`. -/
theorem Answering.exprStmt_spanned (answering : Answering source m n g g') :
    Answers source m false (Eats (Faithful source)) (spanned g.exprStmt) (spanned g'.exprStmt) := by
  refine answering.exprStmt.spannedAt ?_
  rintro c _ after taken of - run leads nonempty length ⟨expr, good, rfl, positive⟩
  obtain ⟨stop, _ | ⟨lexeme, rest⟩⟩ := c
  · exact absurd rfl of.ne_nil
  have left : rest ≠ [] := by
    rintro rfl
    have behind := List.length_pos_iff.mpr nonempty
    simp only [List.length_singleton] at length
    omega
  obtain ⟨stands, listed, -⟩ := of.next (.inr left)
  refine ⟨⟨⟨lexeme, listed, stands, rfl, fun isFunction => ?_⟩, good⟩, positive⟩
  simp [Grammar.exprStmt, Cursor.next?, isFunction] at run

/-- Where no `function` comes next, an expression statement is told why it fails. -/
theorem Answering.exprStmt_reports (answering : Answering source m n g g') {c : Cursor} (of : c.Of source)
    (short : c.rest.length ≤ m) (noFunction : c.next? ≠ some (.keyword .kwFunction)) (stuck : g.exprStmt.Fails c) :
    Failure.Reported c.offset (g.exprStmt c).failure := by
  have other : (ahead (.word .kwFunction)).Gives c false c := by
    refine ahead_gives.mpr ⟨?_, rfl⟩
    cases next : c.next? with
    | none => rfl
    | some t =>
      refine (Symbol.not_isSpelled_word.mpr fun isFunction => noFunction ?_).symm
      rw [next, isFunction]
  have reply : g.exprStmt c = (do
      let expr ← g.sequence true
      expect (.punct .semicolon)
      return (Tree.exprStmt · expr)) c := bind_of_gives other
  unfold Fails at stuck
  rw [reply] at stuck ⊢
  exact (answering.terminated c of short).2.reports rfl stuck

theorem Answering.declaration (answering : Answering source n n g g') :
    Answers source n true (Eats (Faithful source)) (g.declaration allowIn) (g'.declaration allowIn) := by
  refine Answers.spanned (answers_identifier.bind ?_)
  rintro name _ rfl
  refine answers_take (Nat.le_succ _) ((answering.assign allowIn).bind ?_) (answers_pure fun span => ?_)
  · rintro init taken ⟨good, -⟩
    exact answers_pure fun span => ⟨⟨trivial, good⟩, by omega⟩
  · exact ⟨⟨trivial, trivial⟩, by omega⟩

theorem Answering.varStmt (answering : Answering source n n g g') :
    Answers source (n + 1) false (Built source) g.varStmt g'.varStmt := by
  refine answers_require (answering.declaration.separated.quiet.bind ?_)
  rintro list taken ⟨good, -⟩
  exact answers_expect (answers_pure fun span => ⟨⟨trivial, all_ofList.mpr good⟩, by omega⟩)

theorem emptyStmt_answers : Answers source (n + 1) false (Built source) emptyStmt emptyStmt :=
  answers_require (answers_pure fun span => ⟨trivial, by omega⟩)

/-! Conditions and loops -/

theorem Answering.headExpr (answering : Answering source n n g g') :
    Answers source n true (Eats (Faithful source)) g.headExpr g'.headExpr := by
  refine answers_expect (answering.sequence.bind ?_)
  rintro expr taken ⟨good, -⟩
  exact answers_expect (answers_pure ⟨good, by omega⟩)

theorem Answering.ifStmt (answering : Answering source n n g g') :
    Answers source (n + 1) false (Built source) g.ifStmt g'.ifStmt := by
  refine answers_require (answering.headExpr.quiet.bind ?_)
  rintro cond taken ⟨goodCond, -⟩
  refine answering.statement.bind ?_
  rintro yes more ⟨goodYes, -⟩
  refine Answers.bind (R := fun no _ => ∀ present ∈ no, present.Faithful source) ?_ fun no further goodNo => ?_
  · refine Answers.optional (R := Eats (Faithful source)) ?_ (by rintro _ _ ⟨good, -⟩ _ ⟨⟩; exact good) (by rintro _ ⟨⟩)
    refine (answers_require (answering.statement.weaken ?_ id)).mono (Nat.le_succ n)
    rintro no further ⟨good, -⟩
    exact ⟨good, by omega⟩
  · exact answers_pure fun span => ⟨⟨trivial, goodCond, goodYes, faithful_ofOption goodNo⟩, by omega⟩

theorem Answering.doWhile (answering : Answering source n n g g') :
    Answers source (n + 1) false (Built source) g.doWhile g'.doWhile := by
  refine answers_require (answering.statement.bind ?_)
  rintro body taken ⟨goodBody, -⟩
  refine answers_expect (answering.headExpr.quiet.bind ?_)
  rintro cond more ⟨goodCond, -⟩
  exact answers_expect (answers_pure fun span => ⟨⟨trivial, goodBody, goodCond⟩, by omega⟩)

/-- A statement with a condition or an object in parentheses in front of its body. -/
theorem Answering.headed (answering : Answering source n n g g')
    {build : Node .sequence → Node .statement → Span → Node .statement}
    (keeps : ∀ expr body, expr.Faithful source → body.Faithful source → ∀ span, (build expr body span).Faithful source)
    {word : Symbol} : Answers source (n + 1) false (Built source)
      (do
        require word
        let expr ← g.headExpr
        let body ← g.statement
        return build expr body)
      (do
        require word
        let expr ← g'.headExpr
        let body ← g'.statement
        return build expr body) := by
  refine answers_require (answering.headExpr.quiet.bind ?_)
  rintro expr taken ⟨goodExpr, -⟩
  refine answering.statement.bind ?_
  rintro body more ⟨goodBody, -⟩
  exact answers_pure fun span => ⟨keeps expr body goodExpr goodBody span, by omega⟩

theorem Answering.whileStmt (answering : Answering source n n g g') :
    Answers source (n + 1) false (Built source) g.whileStmt g'.whileStmt := by
  refine answering.headed ?_
  intro cond body goodCond goodBody span
  exact ⟨trivial, goodCond, goodBody⟩

theorem Answering.withStmt (answering : Answering source n n g g') :
    Answers source (n + 1) false (Built source) g.withStmt g'.withStmt := by
  refine answering.headed ?_
  intro object body goodObject goodBody span
  exact ⟨trivial, goodObject, goodBody⟩

theorem Answering.clause (answering : Answering source n n g g') {closing : Symbol} :
    Answers source n true (fun t _ => t.Faithful source) (g.clause allowIn closing) (g'.clause allowIn closing) := by
  refine answers_ahead fun isClosing => ?_
  cases isClosing with
  | true => exact answers_pure trivial
  | false => exact answering.sequence.bind fun expr taken eats => answers_pure eats.1

theorem Answering.loopRest (answering : Answering source n n g g') :
    Answers source n false (Eats fun x => x.1.Faithful source ∧ x.2.1.Faithful source ∧ x.2.2.Faithful source)
      g.loopRest g'.loopRest := by
  refine answering.clause.quiet.bind fun cond _ goodCond => answers_expect ?_
  refine answering.clause.quiet.bind fun post _ goodPost => answers_expect ?_
  exact answering.statement.bind fun body _ eats => answers_pure ⟨⟨goodCond, goodPost, eats.1⟩, by omega⟩

theorem Answering.keysRest (answering : Answering source n n g g') :
    Answers source n false (Eats fun x => x.1.Faithful source ∧ x.2.Faithful source) g.keysRest g'.keysRest := by
  refine answering.sequence.quiet.bind fun object _ eats => answers_expect ?_
  exact answering.statement.bind fun body _ eats' => answers_pure ⟨⟨eats.1, eats'.1⟩, by omega⟩

theorem endInit_answers {orIn : Bool} : Answers source n false (fun _ _ => True) (endInit orIn) (endInit orIn) := by
  refine answers_probe (Nat.le_succ _) (answers_pure trivial) ?_
  cases orIn with
  | true => exact answers_miss answers_fail
  | false => exact answers_fail

theorem Answering.forVarLoop (answering : Answering source n n g g') {decls : List (Node .declaration)}
    (good : ∀ t ∈ decls, t.Faithful source) :
    Answers source n false (Built source) (g.forVarLoop decls) (g'.forVarLoop decls) := by
  refine answering.loopRest.bind ?_
  rintro ⟨cond, post, body⟩ _ ⟨⟨goodCond, goodPost, goodBody⟩, positive⟩
  exact answers_pure fun span => ⟨⟨trivial, all_ofList.mpr good, goodCond, goodPost, goodBody⟩, positive⟩

theorem Answering.forVarRest (answering : Answering source n n g g') :
    Answers source n false (Built source) g.forVarRest g'.forVarRest := by
  refine answering.declaration.separated.quiet.bind ?_
  rintro decls taken ⟨good, positive⟩
  have loop (orIn : Bool) : Answers source n false (fun build more => Built source build (taken + more))
      (endInit orIn >>= fun _ => g.forVarLoop decls) (endInit orIn >>= fun _ => g'.forVarLoop decls) := by
    refine endInit_answers.bind fun _ before _ => ?_
    refine (answering.forVarLoop good).weaken (fun build more built span => ?_) id
    exact ⟨(built span).1, by omega⟩
  obtain _ | ⟨decl, _ | ⟨other, more⟩⟩ := decls
  · exact loop false
  · refine answers_take (Nat.le_succ _) (answering.keysRest.bind ?_) (loop true)
    rintro ⟨object, body⟩ _ ⟨⟨goodObject, goodBody⟩, -⟩
    exact answers_pure fun span => ⟨⟨trivial, good decl List.mem_cons_self, goodObject, goodBody⟩, by omega⟩
  · exact loop false

theorem Answering.forLoop (answering : Answering source n n g g') {init : Tree (.optional .sequence)}
    (good : init.Faithful source) : Answers source n false (Built source) (g.forLoop init) (g'.forLoop init) := by
  refine answering.loopRest.bind ?_
  rintro ⟨cond, post, body⟩ _ ⟨⟨goodCond, goodPost, goodBody⟩, positive⟩
  exact answers_pure fun span => ⟨⟨trivial, good, goodCond, goodPost, goodBody⟩, positive⟩

theorem Answering.forRest (answering : Answering source n n g g') :
    Answers source n false (Built source) g.forRest g'.forRest := by
  refine answering.clause.quiet.bind fun init taken good => ?_
  have loop (orIn : Bool) : Answers source n false (fun build more => Built source build (taken + more))
      (endInit orIn >>= fun _ => g.forLoop init) (endInit orIn >>= fun _ => g'.forLoop init) := by
    refine endInit_answers.bind fun _ before _ => (answering.forLoop good).weaken (fun build more built span => ?_) id
    have positive := (built span).2
    exact ⟨(built span).1, by omega⟩
  cases target : initTarget? init with
  | none => exact loop false
  | some lhs =>
    refine answers_take (Nat.le_succ _) (answering.keysRest.bind ?_) (loop true)
    rintro ⟨object, body⟩ _ ⟨⟨goodObject, goodBody⟩, -⟩
    exact answers_pure fun span => ⟨⟨trivial, (initTarget?_good target).2 good, goodObject, goodBody⟩, by omega⟩

theorem Answering.forStmt (answering : Answering source n n g g') :
    Answers source (n + 1) false (Built source) g.forStmt g'.forStmt := by
  refine answers_require (answers_expect (answers_take (Nat.le_succ _) ?_ ?_))
  · exact answering.forVarRest.weaken (fun build taken built span => ⟨(built span).1, by omega⟩) id
  · exact answering.forRest.weaken (fun build taken built span => ⟨(built span).1, by omega⟩) id

/-! Jumps -/

/-- What comes next on the line of a word stands behind the word. -/
theorem exists_behindWord {word : Word} {c between : Cursor} (of : c.Of source) (step : c.Steps (.keyword word) between)
    (quiet : between.breaks = false) :
    ∃ lexeme rest, between.rest = lexeme :: rest ∧ lexeme.BehindWord source word c.offset := by
  obtain ⟨newline, span, behind, atRest, rfl⟩ := step
  obtain ⟨stop, lexemes⟩ := c
  obtain rfl : lexemes = _ := atRest
  obtain ⟨lexeme, rest, rfl⟩ := List.exists_cons_of_ne_nil (of.next (.inl (by rintro ⟨⟩))).2.2.ne_nil
  exact ⟨lexeme, rest, rfl, _, .of_suffix of.suffix quiet, rfl, rfl⟩

theorem label_answers : Answers source n false (fun name taken => name.isSome = true → 1 ≤ taken) label label := by
  refine answers_newlineAhead fun breaks => ?_
  cases breaks with
  | true => exact answers_pure (by rintro ⟨⟩)
  | false =>
    change Answers _ _ _ _ identifier? identifier?
    rw [← bind_pure_self identifier?]
    exact answers_identifier? (Nat.le_succ _) (fun _ => answers_pure fun _ => by omega) (answers_pure (by rintro ⟨⟩))

theorem label_gives {c after : Cursor} {name : Bytes} (run : label.Gives c (some name) after) :
    c.breaks = false ∧ c.Steps (.name name) after := by
  obtain ⟨breaks, _, asked, rest⟩ := bind_gives.mp run
  obtain ⟨isBreak, rfl⟩ := newlineAhead_gives.mp asked
  cases breaks with
  | true => cases (pure_gives.mp rest).1
  | false =>
    obtain ⟨t, step, isName⟩ := accept_gives_some.mp rest
    obtain rfl := nameOf?_eq_some.mp isName
    exact ⟨isBreak.symm, step⟩

/-- A jump to a label, which has to stand on the same line. -/
theorem jump_answers {build : Option Bytes → Span → Node .statement} {word : Word}
    (keeps : ∀ label span, (∀ name ∈ label, ∃ lexeme : Lexeme, lexeme.BehindWord source word span.start ∧
      lexeme.token = .name name) → (build label span).Faithful source) :
    Answers source (n + 1) false (Eats (Faithful source))
      (spanned do
        require (.word word)
        let label ← label
        expect (.punct .semicolon)
        return build label)
      (spanned do
        require (.word word)
        let label ← label
        expect (.punct .semicolon)
        return build label) := by
  refine Answers.spannedAt (Q := fun _ taken => 1 ≤ taken) ?_ ?_
  · exact answers_require (label_answers.bind fun label taken _ => answers_expect (answers_pure (by omega)))
  · intro c _ after taken of _ run _ _ _ positive
    simp only [bind_gives, require_gives, expect_gives, pure_gives, Symbol.isSpelled_word] at run
    obtain ⟨-, between, ⟨_, step, rfl⟩, label, behind, asked, -, -, -, rfl, -⟩ := run
    refine ⟨keeps label _ ?_, positive⟩
    rintro name ⟨⟩
    obtain ⟨quiet, newline, span, rest, next, -⟩ := label_gives asked
    obtain ⟨lexeme, others, same, behindWord⟩ := exists_behindWord of step quiet
    rw [next] at same
    cases same
    exact ⟨_, behindWord, rfl⟩

theorem continueStmt_answers :
    Answers source (n + 1) false (Eats (Faithful source)) (spanned continueStmt) (spanned continueStmt) := by
  refine jump_answers fun label span behind => ?_
  cases label with
  | none => trivial
  | some name => exact behind name rfl

theorem breakStmt_answers :
    Answers source (n + 1) false (Eats (Faithful source)) (spanned breakStmt) (spanned breakStmt) := by
  refine jump_answers fun label span behind => ?_
  cases label with
  | none => trivial
  | some name => exact behind name rfl

theorem Answering.returnValue (answering : Answering source n n g g') :
    Answers source n told (fun value _ => ∀ present ∈ value, present.Faithful source) g.returnValue g'.returnValue := by
  refine answers_newlineAhead fun breaks => ?_
  cases breaks with
  | true => exact answers_pure (by rintro _ ⟨⟩)
  | false =>
    exact answering.sequence.quiet.optional (by rintro _ _ ⟨good, -⟩ _ ⟨⟩; exact good) (by rintro _ ⟨⟩)

theorem returnValue_gives {c after : Cursor} {value : Node .sequence} (run : g.returnValue.Gives c (some value) after) :
    c.breaks = false ∧ (g.sequence true).Gives c value after := by
  obtain ⟨breaks, _, asked, rest⟩ := bind_gives.mp run
  obtain ⟨isBreak, rfl⟩ := newlineAhead_gives.mp asked
  cases breaks with
  | true => cases (pure_gives.mp rest).1
  | false =>
    rcases optional_gives.mp rest with ⟨_, ⟨⟩, inner⟩ | ⟨⟨⟩, -⟩
    exact ⟨isBreak.symm, inner⟩

/-- A value on the line of a word begins with the lexeme behind the word. -/
theorem exists_behindWord_of_sequence {word : Word} {c between after : Cursor} {value : Node .sequence}
    (of : c.Of source) (step : c.Steps (.keyword word) between) (quiet : between.breaks = false)
    (run : (g.sequence true).Gives between value after) :
    ∃ lexeme : Lexeme, lexeme.BehindWord source word c.offset ∧ lexeme.span.start = value.span.start := by
  obtain ⟨lexeme, rest, next, behindWord⟩ := exists_behindWord of step quiet
  refine ⟨lexeme, behindWord, ?_⟩
  rw [sequence_span run]
  simp only [Cursor.offset, next]

theorem Answering.returnStmt (answering : Answering source n n g g') :
    Answers source (n + 1) false (Eats (Faithful source)) (spanned g.returnStmt) (spanned g'.returnStmt) := by
  refine Answers.spannedAt (Q := fun build taken => ∃ value : Tree (.optional .sequence), value.Faithful source ∧
    build = (Tree.returnStmt · value) ∧ 1 ≤ taken) ?_ ?_
  · refine answers_require (answering.returnValue.bind fun value taken good => answers_expect ?_)
    exact answers_pure ⟨_, faithful_ofOption good, rfl, by omega⟩
  · rintro c _ after taken of - run - - - ⟨value, good, rfl, positive⟩
    simp only [Grammar.returnStmt, bind_gives, require_gives, expect_gives, pure_gives, Symbol.isSpelled_word] at run
    obtain ⟨-, between, ⟨_, step, rfl⟩, found, behind, asked, -, -, -, same, -⟩ := run
    obtain rfl := (Tree.returnStmt.inj (congrFun same ⟨0, 0⟩)).2
    refine ⟨⟨?_, good⟩, positive⟩
    cases found with
    | none => trivial
    | some found =>
      obtain ⟨quiet, inner⟩ := returnValue_gives asked
      exact exists_behindWord_of_sequence of step quiet inner

theorem Answering.throwStmt (answering : Answering source n n g g') :
    Answers source (n + 1) false (Eats (Faithful source)) (spanned g.throwStmt) (spanned g'.throwStmt) := by
  refine Answers.spannedAt (Q := fun build taken => ∃ value, value.Faithful source ∧
    build = (Tree.throwStmt · value) ∧ 1 ≤ taken) ?_ ?_
  · refine answers_require (answers_newlineAhead fun breaks => ?_)
    cases breaks with
    | true => exact answers_failMissing.bind (R := fun _ _ => False) fun _ _ never => never.elim
    | false =>
      refine answering.terminated.quiet.weaken ?_ id
      rintro _ taken ⟨value, good, rfl, -⟩
      exact ⟨value, good, rfl, by omega⟩
  · rintro c _ after taken of - run - - - ⟨value, good, rfl, positive⟩
    obtain ⟨_, between, required, rest⟩ := bind_gives.mp run
    obtain ⟨_, step, spelled⟩ := require_gives.mp required
    obtain rfl := Symbol.isSpelled_word.mp spelled
    obtain ⟨breaks, _, asked, rest⟩ := bind_gives.mp rest
    obtain ⟨isBreak, rfl⟩ := newlineAhead_gives.mp asked
    cases breaks with
    | true =>
      obtain ⟨_, _, never, -⟩ := bind_gives.mp rest
      exact (failMissing_gives.mp never).elim
    | false =>
      obtain ⟨found, behind, inner, ending⟩ := bind_gives.mp rest
      simp only [bind_gives, expect_gives, pure_gives] at ending
      obtain ⟨-, -, -, same, -⟩ := ending
      obtain rfl := (Tree.throwStmt.inj (congrFun same ⟨0, 0⟩)).2
      exact ⟨⟨exists_behindWord_of_sequence of step isBreak.symm inner, good⟩, positive⟩

theorem Answering.labeled (answering : Answering source n n g g') :
    Answers source (n + 1) false (Built source) g.labeled g'.labeled := by
  refine answers_identifier? (Nat.le_refl _) (fun label => answers_expect (answering.statement.bind ?_)) answers_fail
  rintro body taken ⟨good, -⟩
  exact answers_pure fun span => ⟨⟨trivial, good⟩, by omega⟩

/-! Blocks -/

/-- One more case, or the last round if there is none. -/
def caseRound (g : Grammar) : Parser (List (Node .caseClause) × Bool) := do
  let start ← offset
  if ← take (.word .kwCase) then
    let value ← g.sequence true
    expect (.punct .colon)
    let body ← many g.statement
    let stop ← reached
    return ([.caseClause ⟨start, stop⟩ value (.ofList body)], true)
  else return ([], false)

theorem caseClauses_eq (g : Grammar) : g.caseClauses = loop g.caseRound := rfl

theorem Answering.caseRound (answering : Answering source n n g g') :
    Answers source n false (GoesOn (Faithful source)) g.caseRound g'.caseRound := by
  refine answers_offset fun start => answers_take (Nat.le_succ _) ?_ (answers_pure ?_)
  · refine answering.sequence.quiet.bind fun value taken eats => answers_expect ?_
    refine answering.statement.many.bind fun body more goodBody => answers_reached fun stop => answers_pure ?_
    exact ⟨List.forall_mem_singleton.mpr ⟨trivial, eats.1, all_ofList.mpr goodBody⟩, fun _ => by omega⟩
  · exact ⟨List.forall_mem_nil _, by rintro ⟨⟩⟩

theorem Answering.caseClauses (answering : Answering source n n g g') :
    Answers source n false (fun list _ => ∀ t ∈ list, t.Faithful source) g.caseClauses g'.caseClauses := by
  rw [caseClauses_eq, caseClauses_eq]
  exact answering.caseRound.loop

theorem Answering.defaultClause (answering : Answering source n n g g') :
    Answers source n false (Eats (Faithful source)) g.defaultClause g'.defaultClause := by
  refine (Answers.spanned (answers_require (answers_expect ?_))).mono (Nat.le_succ n)
  refine answering.statement.many.bind fun body taken good => answers_pure fun span => ?_
  exact ⟨⟨trivial, all_ofList.mpr good⟩, by omega⟩

theorem Answering.fallback (answering : Answering source n n g g') :
    Answers source n false (fun x _ => x.1.Faithful source ∧ ∀ t ∈ x.2, t.Faithful source) g.fallback g'.fallback := by
  refine Answers.bind (R := fun clause _ => ∀ present ∈ clause, present.Faithful source) ?_ ?_
  · exact answering.defaultClause.optional (by rintro _ _ ⟨good, -⟩ _ ⟨⟩; exact good) (by rintro _ ⟨⟩)
  · rintro (_ | clause) taken good
    · exact answers_pure ⟨trivial, List.forall_mem_nil _⟩
    · exact answering.caseClauses.bind fun trailing more goodTrailing =>
        answers_pure ⟨good clause rfl, goodTrailing⟩

theorem Answering.switchStmt (answering : Answering source n n g g') :
    Answers source (n + 1) false (Built source) g.switchStmt g'.switchStmt := by
  refine answers_require (answering.headExpr.quiet.bind fun tag taken eats => answers_expect ?_)
  refine answering.caseClauses.bind fun cases more goodCases => answering.fallback.bind ?_
  rintro ⟨fallback, trailing⟩ further ⟨goodFallback, goodTrailing⟩
  refine answers_expect (answers_pure fun span => ⟨?_, by omega⟩)
  exact ⟨trivial, eats.1, all_ofList.mpr goodCases, goodFallback, all_ofList.mpr goodTrailing⟩

theorem Answering.block (answering : Answering source n n g g') :
    Answers source (n + 1) false (Eats (Faithful source)) g.block g'.block := by
  refine Answers.spanned (answers_expect_first (answering.statement.many.bind fun list taken good => ?_))
  exact answers_expect (answers_pure fun span => ⟨⟨trivial, all_ofList.mpr good⟩, by omega⟩)

theorem catchParam_answers : Answers source n told (Eats fun _ => True) catchParam catchParam := by
  refine answers_expect (answers_identifier.bind fun name taken _ => answers_expect ?_)
  exact answers_pure ⟨trivial, by omega⟩

theorem Answering.handler (answering : Answering source n n g g') :
    Answers source n false (fun clause _ => ∀ present ∈ clause, present.Faithful source) g.handler g'.handler := by
  refine answers_offset fun start => answers_probe (Nat.le_succ _) ?_ (answers_pure (by rintro _ ⟨⟩))
  refine catchParam_answers.bind fun param taken _ => (answering.block.mono (Nat.le_succ n)).bind ?_
  rintro body more ⟨good, -⟩
  refine answers_reached fun stop => answers_pure ?_
  rintro _ ⟨⟩
  exact ⟨trivial, good⟩

theorem Answering.cleanup (answering : Answering source n n g g') :
    Answers source n false (fun block _ => ∀ present ∈ block, present.Faithful source) g.cleanup g'.cleanup := by
  refine answers_probe (Nat.le_succ _) ((answering.block.mono (Nat.le_succ n)).map ?_) (answers_pure (by rintro _ ⟨⟩))
  rintro block taken ⟨good, -⟩ _ ⟨⟩
  exact good

theorem Answering.tryStmt (answering : Answering source n n g g') :
    Answers source (n + 1) false (Built source) g.tryStmt g'.tryStmt := by
  refine answers_require ((answering.block.mono (Nat.le_succ n)).bind fun body taken eats => ?_)
  refine answering.handler.bind fun handler more goodHandler => ?_
  refine answering.cleanup.bind fun cleanup further goodCleanup => ?_
  cases nothing : handler.isNone && cleanup.isNone with
  | true => exact answers_fail.bind (R := fun _ _ => False) fun _ _ never => never.elim
  | false =>
    refine answers_pure fun span => ⟨?_, by omega⟩
    exact ⟨trivial, eats.1, faithful_ofOption goodHandler, faithful_ofOption goodCleanup⟩

theorem debugger_answers : Answers source (n + 1) false (Built source) debugger debugger :=
  answers_require (answers_expect (answers_pure fun span => ⟨trivial, by omega⟩))

theorem Answering.blockStmt (answering : Answering source n n g g') :
    Answers source (n + 1) false (Eats (Faithful source)) g.blockStmt g'.blockStmt := by
  refine answers_ahead fun isBrace => ?_
  cases isBrace with
  | true => exact answering.block.map fun _ _ eats => eats
  | false => exact answers_fail

/-! Statements and source elements -/

theorem Answering.statementForm (answering : Answering source (n + 1) n g g') :
    Answers source (n + 1) false (Eats (Faithful source)) g.statementForm g'.statementForm := by
  have inner := answering.mono (Nat.le_succ n) (Nat.le_refl n)
  exact answering.exprStmt_spanned.either <| inner.varStmt.spanned.either <| emptyStmt_answers.spanned.either <|
    inner.ifStmt.spanned.either <| inner.doWhile.spanned.either <| inner.whileStmt.spanned.either <|
    inner.forStmt.spanned.either <| continueStmt_answers.either <| breakStmt_answers.either <|
    inner.returnStmt.either <| inner.withStmt.spanned.either <| inner.labeled.spanned.either <|
    inner.switchStmt.spanned.either <| inner.throwStmt.either <| inner.tryStmt.spanned.either <|
    debugger_answers.spanned.either inner.blockStmt

/-- What follows the word of a function declaration. -/
theorem Answering.namedFunction (answering : Answering source n n g g') : Answers source n true
    (fun (build : Span → Node .element) taken => ∀ span, Eats (Faithful source) (build span) (1 + taken))
    (do
      let name ← identifier
      let params ← params
      let body ← g.functionBody
      return fun span => .funcDecl span name params body)
    (do
      let name ← identifier
      let params ← params
      let body ← g'.functionBody
      return fun span => .funcDecl span name params body) := by
  refine answers_identifier.bind fun name _ _ => params_answers.bind fun params _ _ => answering.functionBody.bind ?_
  rintro body taken ⟨good, -⟩
  exact answers_pure fun span => ⟨⟨trivial, good⟩, by omega⟩

theorem Answering.funcDecl (answering : Answering source n n g g') :
    Answers source (n + 1) false (Eats (Faithful source)) g.funcDecl g'.funcDecl :=
  Answers.spanned (answers_require answering.namedFunction.quiet)

/-- Behind `function`, a declaration is told why it fails. -/
theorem Answering.funcDecl_reports (answering : Answering source n n g g') {c : Cursor} (of : c.Of source)
    (short : c.rest.length ≤ n + 1) (isFunction : c.next? = some (.keyword .kwFunction)) (stuck : g.funcDecl.Fails c) :
    Failure.Reported c.offset (g.funcDecl c).failure := by
  have inner := spanned_fails.mp stuck
  rw [show g.funcDecl c = _ from spanned_of_fails inner]
  exact answering.namedFunction.require_reports of short isFunction rfl inner

theorem Answering.sourceElement (answering : Answering source n n g g')
    {statement statement' : Parser (Node .statement)}
    (answers : Answers source (n + 1) false (Eats (Faithful source)) statement statement')
    (reports : ∀ c : Cursor, c.Of source → c.rest.length ≤ n + 1 → c.next? ≠ some (.keyword .kwFunction) →
      statement.Fails c → Failure.Reported c.offset (statement c).failure) :
    Answers source (n + 1) true (Eats (Faithful source)) (g.funcDecl <|> Tree.ofStatement <$> statement)
      (g'.funcDecl <|> Tree.ofStatement <$> statement') := by
  have wrapped : Answers source (n + 1) false (Eats (Faithful source)) (Tree.ofStatement <$> statement)
      (Tree.ofStatement <$> statement') := answers.map fun _ _ eats => eats
  intro c of short
  obtain ⟨same, explains, -, leads⟩ := (answering.funcDecl.either wrapped) c of short
  refine ⟨same, explains, fun _ stuck => ?_, leads⟩
  obtain ⟨noFunction, noStatement⟩ := either_fails.mp stuck
  have noStatement' := map_fails.mp noStatement
  rw [either_of_fails noFunction]
  by_cases isFunction : c.next? = some (.keyword .kwFunction)
  · exact (answering.funcDecl_reports of short isFunction noFunction).merge_left
  · have reported := reports c of short isFunction noStatement'
    rw [show (Tree.ofStatement <$> statement) c = _ from bind_of_fails noStatement']
    exact reported.merge_right

theorem Answering.statementForm_reports (answering : Answering source m n g g') {c : Cursor} (of : c.Of source)
    (short : c.rest.length ≤ m) (noFunction : c.next? ≠ some (.keyword .kwFunction)) (stuck : g.statementForm.Fails c) :
    Failure.Reported c.offset (g.statementForm c).failure := by
  obtain ⟨noExpression, -⟩ := either_fails.mp stuck
  have inner := spanned_fails.mp noExpression
  have reported := answering.exprStmt_reports of short noFunction inner
  rw [show g.statementForm c = _ from either_of_fails noExpression, spanned_of_fails inner]
  exact reported.merge_left

/-- One more level of nesting is good for one more lexeme. -/
theorem Answering.deepen (answering : Answering source n n g g') :
    Answering source (n + 1) (n + 1) g.deepen g'.deepen := by
  have forms : Answering source (n + 1) n ⟨g.assignExpr, g.statement, g.element⟩
      ⟨g'.assignExpr, g'.statement, g'.element⟩ :=
    ⟨fun _ => answering.assignExpr, answering.statement, answering.element⟩
  refine ⟨fun _ => answering.assignExpr, forms.statementForm, answering.sourceElement forms.statementForm ?_⟩
  intro c of short noFunction stuck
  exact forms.statementForm_reports of short noFunction stuck

theorem answering_zero : Answering source 0 0 g g' := ⟨fun _ => answers_zero, answers_zero, answers_zero⟩

end Grammar

end EcmaFold
