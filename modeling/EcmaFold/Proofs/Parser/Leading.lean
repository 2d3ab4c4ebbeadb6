import EcmaFold.Proofs.Parser.Nesting

/-!
Whether a line ends before the first token of an element makes no difference: no production asks for it before it has
taken a token.
-/

namespace EcmaFold

namespace Cursor

/-- The cursor with the next token on the line. -/
def onLine : Cursor → Cursor
  | ⟨stop, []⟩ => ⟨stop, []⟩
  | ⟨stop, next :: rest⟩ => ⟨stop, { next with newline := false } :: rest⟩

@[simp] theorem offset_onLine (c : Cursor) : c.onLine.offset = c.offset := by
  obtain ⟨stop, _ | ⟨next, rest⟩⟩ := c <;> rfl

@[simp] theorem next?_onLine (c : Cursor) : c.onLine.next? = c.next? := by
  obtain ⟨stop, _ | ⟨next, rest⟩⟩ := c <;> rfl

theorem rest_onLine {c : Cursor} {next : Lexeme} {rest : List Lexeme} (atRest : c.rest = next :: rest) :
    c.onLine.rest = { next with newline := false } :: rest := by
  obtain ⟨stop, _⟩ := c
  obtain rfl := atRest
  rfl

theorem length_onLine (c : Cursor) : c.onLine.rest.length = c.rest.length := by
  obtain ⟨stop, _ | ⟨next, rest⟩⟩ := c <;> rfl

end Cursor

namespace Parser

variable {α β : Type}

/-- Whether a line ends before the next token does not change what the parser gives. -/
def Starts (p : Parser α) : Prop := ∀ c, (p c.onLine).result = (p c).result

/-- The same of a parser that may take no token and then leaves the question to what follows. -/
def Blind (p : Parser α) : Prop :=
  ∀ c, (p c.onLine).result = (p c).result ∨ ∃ v, p.Gives c v c ∧ p.Gives c.onLine v c.onLine

theorem bind_result (p : Parser α) (f : α → Parser β) (c : Cursor) :
    ((p >>= f) c).result = (p c).result.bind fun success => (f success.1 success.2).result := by
  simp only [Bind.bind, Parser.bind]
  rcases p c with ⟨_ | ⟨v, between⟩, failure⟩ <;> rfl

theorem either_result (p q : Parser α) (c : Cursor) :
    ((p <|> q) c).result = (p c).result.or (q c).result := by
  change (either p q c).result = _
  simp only [either]
  rcases p c with ⟨_ | success, failure⟩ <;> rfl

theorem Starts.of_result {p q : Parser α} (starts : Starts p) (same : ∀ c, (q c).result = (p c).result) : Starts q := by
  intro c
  rw [same, same, starts c]

theorem Starts.bind {p : Parser α} (starts : Starts p) (f : α → Parser β) : Starts (p >>= f) := by
  intro c
  rw [bind_result, bind_result, starts c]

theorem Starts.map {p : Parser α} (starts : Starts p) (f : α → β) : Starts (f <$> p) := starts.bind _

theorem Starts.either {p q : Parser α} (first : Starts p) (second : Starts q) : Starts (p <|> q) := by
  intro c
  rw [either_result, either_result, first c, second c]

theorem starts_fail : Starts (fail : Parser α) := fun _ => rfl

theorem starts_failMissing {e : Expectation} : Starts (failMissing e : Parser α) := fun _ => rfl

theorem blind_pure (v : α) : Blind (pure v : Parser α) := fun _ => .inr ⟨v, rfl, rfl⟩

theorem blind_offset : Blind offset := by
  intro c
  refine .inr ⟨c.offset, rfl, ?_⟩
  rw [offset_gives, Cursor.offset_onLine]
  exact ⟨rfl, rfl⟩

theorem blind_ahead (symbol : Symbol) : Blind (ahead symbol) := by
  intro c
  refine .inr ⟨_, ahead_gives.mpr ⟨rfl, rfl⟩, ?_⟩
  rw [ahead_gives, Cursor.next?_onLine]
  exact ⟨rfl, rfl⟩

/-- What takes no token leaves the question to what follows. -/
theorem Blind.starts {p : Parser α} {f : α → Parser β} (blind : Blind p) (next : ∀ v, Starts (f v)) :
    Starts (p >>= f) := by
  intro c
  rw [bind_result, bind_result]
  rcases blind c with same | ⟨v, here, there⟩
  · rw [same]
  · rw [here, there]
    exact next v c

theorem Blind.bind {p : Parser α} {f : α → Parser β} (blind : Blind p) (next : ∀ v, Blind (f v)) :
    Blind (p >>= f) := by
  intro c
  rcases blind c with same | ⟨v, here, there⟩
  · exact .inl (by rw [bind_result, bind_result, same])
  · rcases next v c with same | ⟨w, last, last'⟩
    · refine .inl ?_
      rw [bind_result, bind_result, here, there]
      exact same
    · exact .inr ⟨w, bind_gives.mpr ⟨v, c, here, last⟩, bind_gives.mpr ⟨v, _, there, last'⟩⟩

theorem blind_accept (select : Token → Option α) : Blind (accept select) := by
  rintro ⟨stop, _ | ⟨next, rest⟩⟩
  · exact .inr ⟨none, rfl, rfl⟩
  · cases found : select next.token with
    | none =>
      refine .inr ⟨none, ?_, ?_⟩ <;> simp [Gives, accept, Cursor.onLine, found]
    | some v => exact .inl (by simp [accept, Cursor.onLine, found])

theorem blind_take (symbol : Symbol) : Blind (take symbol) := (blind_accept _).bind fun _ => blind_pure _

theorem Starts.spanned {p : Parser (Span → α)} (starts : Starts p) : Starts (Parser.spanned p) :=
  blind_offset.starts fun _ => starts.bind _

/-- Where a token is taken, the question does not arise any more. -/
theorem starts_accept {select : Token → Option α} {f : Option α → Parser β} (missing : Starts (f none)) :
    Starts (accept select >>= f) := by
  rintro ⟨stop, _ | ⟨next, rest⟩⟩
  · rfl
  · cases found : select next.token with
    | none =>
      have stays := missing ⟨stop, next :: rest⟩
      simpa [bind_result, accept, Cursor.onLine, found] using stays
    | some v => simp [bind_result, accept, Cursor.onLine, found]

theorem starts_take {symbol : Symbol} {p q : Parser β} (no : Starts q) :
    Starts (take symbol >>= fun b => if b = true then p else q) :=
  Starts.of_result (starts_accept (by simpa using no)) (take_bind_result symbol _)

theorem starts_require (symbol : Symbol) (p : Parser β) : Starts (require symbol >>= fun _ => p) :=
  Starts.of_result (starts_take starts_fail) (require_bind_result symbol p)

theorem starts_expect (symbol : Symbol) (p : Parser β) : Starts (expect symbol >>= fun _ => p) :=
  Starts.of_result (starts_take starts_fail) (expect_bind_result symbol p)

/-! Loops -/

theorem rounds_eq (round : Parser (List α × Bool)) {bound bound' : List Lexeme} (length : bound.length = bound'.length) :
    rounds round bound = rounds round bound' := by
  induction bound generalizing bound' with
  | nil =>
    obtain rfl : bound' = [] := List.length_eq_zero_iff.mp length.symm
    rfl
  | cons _ bound ih =>
    obtain _ | ⟨_, bound'⟩ := bound'
    · cases length
    · rw [rounds, rounds, ih (Nat.succ.inj length)]

theorem Blind.loop {round : Parser (List α × Bool)} (blind : Blind round) : Blind (Parser.loop round) := by
  have bounded : ∀ bound : List Lexeme, Blind (rounds round bound) := by
    intro bound
    induction bound with
    | nil =>
      refine blind.bind fun found => ?_
      obtain ⟨found, _ | _⟩ := found
      · exact blind_pure found
      · exact fun c => .inl (starts_fail c)
    | cons _ bound ih =>
      refine blind.bind fun found => ?_
      obtain ⟨found, _ | _⟩ := found
      · exact blind_pure found
      · exact ih.bind fun more => blind_pure _
  intro c
  change (rounds round c.onLine.rest c.onLine).result = _ ∨ ∃ v, _ ∧ (rounds round c.onLine.rest).Gives _ _ _
  rw [rounds_eq round c.length_onLine]
  exact bounded c.rest c

theorem blind_manyTokens (select : Token → Option α) : Blind (manyTokens select) := by
  refine Blind.loop ((blind_accept select).bind fun found => ?_)
  cases found <;> exact blind_pure _

end Parser

namespace Grammar

open EcmaFold.Parser

variable (g : Grammar)

theorem primary_starts : Starts g.primary := by
  have atom : Starts Grammar.atom := Starts.spanned (starts_accept starts_fail)
  have arrayLit : Starts g.arrayLit := Starts.spanned (starts_require _ _)
  have paren : Starts g.paren := Starts.spanned (starts_take starts_failMissing)
  exact atom.either (arrayLit.either paren)

theorem lhs_starts : Starts g.lhs := by
  have functionExpr : Starts g.functionExpr := Starts.spanned (starts_require _ _)
  have member : Starts g.member := Starts.spanned ((functionExpr.either g.primary_starts).bind _)
  have news : Blind news := by
    refine Blind.loop (blind_offset.bind fun start => (blind_take _).bind fun taken => ?_)
    cases taken <;> exact blind_pure _
  exact Starts.spanned (news.starts fun _ => member.bind _)

theorem unary_starts : Starts g.unary := by
  have update : Starts g.update := Starts.spanned (g.lhs_starts.bind _)
  exact Starts.spanned ((blind_manyTokens _).starts fun _ => update.bind _)

theorem level_starts {tier : Tier} {allowIn : Bool} {operand : Parser (Node tier.operand)} (each : Starts operand) :
    Starts (level tier allowIn operand) := Starts.spanned (each.bind _)

theorem assignExpr_starts (allowIn : Bool) : Starts (g.assignExpr allowIn) := by
  have logicalOr : Starts (g.logicalOr allowIn) :=
    level_starts <| level_starts <| level_starts <| level_starts <| level_starts <| level_starts <| level_starts <|
      level_starts <| level_starts <| level_starts g.unary_starts
  have cond : Starts (g.cond allowIn) := Starts.spanned (logicalOr.bind _)
  exact Starts.spanned (cond.bind _)

theorem statementForm_starts (assign : Starts (g.assign true)) : Starts g.statementForm := by
  have exprStmt : Starts g.exprStmt := by
    refine (blind_ahead _).starts fun isFunction => ?_
    cases isFunction with
    | true => exact starts_fail.bind _
    | false => exact (Starts.spanned ((assign.bind _).bind _)).bind _
  have labeled : Starts g.labeled := starts_accept starts_fail
  have blockStmt : Starts g.blockStmt := by
    refine (blind_ahead _).starts fun isBrace => ?_
    cases isBrace with
    | true => exact (Starts.spanned (starts_expect _ _)).map _
    | false => exact starts_fail
  exact exprStmt.spanned.either <|
    (show Starts g.varStmt from starts_require _ _).spanned.either <|
    (show Starts Grammar.emptyStmt from starts_require _ _).spanned.either <|
    (show Starts g.ifStmt from starts_require _ _).spanned.either <|
    (show Starts g.doWhile from starts_require _ _).spanned.either <|
    (show Starts g.whileStmt from starts_require _ _).spanned.either <|
    (show Starts g.forStmt from starts_require _ _).spanned.either <|
    (show Starts Grammar.continueStmt from starts_require _ _).spanned.either <|
    (show Starts Grammar.breakStmt from starts_require _ _).spanned.either <|
    (show Starts g.returnStmt from starts_require _ _).spanned.either <|
    (show Starts g.withStmt from starts_require _ _).spanned.either <|
    labeled.spanned.either <|
    (show Starts g.switchStmt from starts_require _ _).spanned.either <|
    (show Starts g.throwStmt from starts_require _ _).spanned.either <|
    (show Starts g.tryStmt from starts_require _ _).spanned.either <|
    (show Starts Grammar.debugger from starts_require _ _).spanned.either blockStmt

/-- Whether a line ends before an element makes no difference for it. -/
theorem ofDepth_element_starts (depth : Nat) : Starts (ofDepth depth).element := by
  cases depth with
  | zero => exact starts_fail
  | succ depth =>
    let inner := ofDepth depth
    have funcDecl : Starts inner.funcDecl := Starts.spanned (starts_require _ _)
    have statement := statementForm_starts ⟨inner.assignExpr, inner.statement, inner.element⟩
      (inner.assignExpr_starts true)
    exact funcDecl.either (statement.map _)

end Grammar

end EcmaFold
