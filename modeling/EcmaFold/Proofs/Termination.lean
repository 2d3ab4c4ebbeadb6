import EcmaFold.Proofs.SourceAnswers

/-!
Why reading ends. The categories that contain themselves are defined from their replies nearer to the end of the source,
or from those of a category of lower rank at the same place. Every production that succeeds moves on, but for the few
that may match nothing, and so does every round of a loop that is not the last. So a depth of nesting and a number of
rounds that the length of the source bounds are enough, and what would be read beyond them is never asked for.
-/

namespace EcmaFold

namespace Cursor

variable {source : Bytes} {c c' : Cursor}

/-- The number of bytes from the next token on. -/
def bytesLeft (source : Bytes) (c : Cursor) : Nat := source.length - c.offset

theorem Of.length_le (of : c.Of source) : c.rest.length ≤ (Lexeme.scan source).length := of.suffix.length_le

/-- With fewer lexemes left, the next token lies farther to the right. -/
theorem Of.bytesLeft_lt (of : c.Of source) (of' : c'.Of source) (fewer : c'.rest.length < c.rest.length) :
    c'.bytesLeft source < c.bytesLeft source := by
  have suffix := List.suffix_of_suffix_length_le of'.suffix of.suffix (Nat.le_of_lt fewer)
  obtain ⟨stop, _ | ⟨lexeme, rest⟩⟩ := c
  · exact absurd rfl of.ne_nil
  obtain ⟨stop', _ | ⟨lexeme', rest'⟩⟩ := c'
  · exact absurd rfl of'.ne_nil
  have inside : lexeme' :: rest' <:+ rest := (List.suffix_cons_iff.mp suffix).resolve_left fun same => by
    rw [same] at fewer
    exact Nat.lt_irrefl _ fewer
  have left : rest ≠ [] := List.ne_nil_of_mem (inside.subset List.mem_cons_self)
  obtain ⟨stands, -, behind⟩ := of.next (.inr left)
  have start := stands.start_lt
  have farther := behind.inOrder.le_start lexeme' (inside.subset List.mem_cons_self)
  have last := of'.offset_le_length
  simp only [bytesLeft, offset] at last farther ⊢
  omega

/-- With as many lexemes left, the next token is the same. -/
theorem Of.bytesLeft_eq (of : c.Of source) (of' : c'.Of source) (same : c'.rest.length = c.rest.length) :
    c'.bytesLeft source = c.bytesLeft source := by
  have rest := (List.suffix_of_suffix_length_le of'.suffix of.suffix (Nat.le_of_eq same)).eq_of_length same
  obtain ⟨stop, _ | ⟨lexeme, rest⟩⟩ := c
  · exact absurd rfl of.ne_nil
  obtain ⟨stop', rest'⟩ := c'
  simp only at rest
  subst rest
  rfl

end Cursor

namespace Grammar

open EcmaFold.Parser EcmaFold.Tree

/-! The recursion -/

/-- The categories that contain themselves. -/
inductive Category where
  | assign (allowIn : Bool)
  | statement
  | element

namespace Category

abbrev kind : Category → Kind
  | assign _ => .assign
  | statement => .statement
  | element => .element

/-- A category is defined from those of lower rank at the same place. -/
def rank : Category → Nat
  | assign _ => 0
  | statement => 1
  | element => 2

end Category

/-- What a grammar answers for a category. -/
def reply (g : Grammar) : (category : Category) → Parser (Node category.kind)
  | .assign allowIn => g.assign allowIn
  | .statement => g.statement
  | .element => g.element

/-- What defines a category. -/
def body (g : Grammar) : (category : Category) → Parser (Node category.kind)
  | .assign allowIn => g.assignExpr allowIn
  | .statement => g.statementForm
  | .element => g.funcDecl <|> Tree.ofStatement <$> g.statement

/-- The grammar that a source is read with. -/
abbrev ofSource (source : Bytes) : Grammar := ofDepth (Lexeme.scan source).length

variable {source : Bytes}

/-- Whatever a grammar nests in, it answers as that of the source once it nests deep enough. -/
theorem exists_answering (h : Grammar) {depth : Nat} (deep : (Lexeme.scan source).length ≤ depth) :
    ∃ n, (Lexeme.scan source).length = n + 1 ∧
      Answering source (n + 1) (n + 1) (ofSource source) (deepen^[depth] h) := by
  obtain ⟨n, length⟩ := Nat.exists_eq_add_one_of_ne_zero
    (mt List.length_eq_zero_iff.mp (Lexeme.scan_inOrder source).ne_nil)
  refine ⟨n, length, ?_⟩
  rw [ofSource, ofDepth_eq_iterate]
  exact iterate_answering _ h (Nat.le_of_eq length.symm) (length ▸ deep)

/-- A category at a cursor is defined from replies with fewer bytes left, or with as many and of lower rank. -/
theorem body_congr {category : Category} {c : Cursor} {g : Grammar} (of : c.Of source)
    (agree : ∀ (category' : Category) (c' : Cursor), c'.Of source →
      Prod.Lex (· < ·) (· < ·) (c'.bytesLeft source, category'.rank) (c.bytesLeft source, category.rank) →
      g.reply category' c' = (ofSource source).reply category' c') :
    g.body category c = (ofSource source).body category c := by
  obtain ⟨n, length⟩ := Nat.exists_eq_add_one_of_ne_zero (mt List.length_eq_zero_iff.mp of.ne_nil)
  have fits : n + 1 ≤ (Lexeme.scan source).length := length ▸ of.length_le
  have answering : Answering source (n + 1) (n + 1) (ofSource source) (ofSource source) := ofDepth_answering fits fits
  have behind (category' : Category) (c' : Cursor) (of' : c'.Of source) (short : c'.rest.length ≤ n) :
      g.reply category' c' = (ofSource source).reply category' c' :=
    agree category' c' of' (.left _ _ (of.bytesLeft_lt of' (by omega)))
  have here (category' : Category) (lower : category'.rank < category.rank) (c' : Cursor) (of' : c'.Of source)
      (short : c'.rest.length ≤ n + 1) : g.reply category' c' = (ofSource source).reply category' c' := by
    rcases Nat.lt_or_eq_of_le short with shorter | same
    · exact behind category' c' of' (Nat.le_of_lt_succ shorter)
    · refine agree category' c' of' ?_
      rw [of.bytesLeft_eq of' (same.trans length.symm)]
      exact .right _ lower
  have inner := answering.mono (Nat.le_succ n) (Nat.le_succ n)
  have inside : Answering source n n (ofSource source) g :=
    ⟨fun allowIn => (inner.assign allowIn).congr (behind (.assign allowIn)), inner.statement.congr (behind .statement),
      inner.element.congr (behind .element)⟩
  have short := Nat.le_of_eq length
  cases category with
  | assign allowIn => exact (inside.assignExpr c of short).1.symm
  | statement =>
    have form : Answering source (n + 1) n (ofSource source) g :=
      ⟨fun allowIn => (answering.assign allowIn).congr (here (.assign allowIn) Nat.zero_lt_one), inside.statement,
        inside.element⟩
    exact (form.statementForm c of short).1.symm
  | element =>
    have statement := answering.statement.congr (here .statement Nat.one_lt_two)
    have either : Answers source (n + 1) false (Eats (Faithful source)) _ _ :=
      inside.funcDecl.either (statement.map (f := Tree.ofStatement) fun _ _ eats => eats)
    exact (either c of short).1.symm

/-- One more level of nesting gives what defines the categories, each over those of lower rank. -/
theorem body_deepen (g : Grammar) (c : Cursor) :
    body ⟨g.assignExpr, g.statement, g.element⟩ .statement c = g.deepen.statement c ∧
      body ⟨g.assign, g.deepen.statement, g.element⟩ .element c = g.deepen.element c := by
  have onlyElements : funcDecl ⟨g.assign, g.deepen.statement, g.element⟩ = g.funcDecl := by
    simp only [funcDecl, functionBody]
  refine ⟨rfl, ?_⟩
  rw [body, onlyElements]
  rfl

/-- The grammar of a source answers each category by what defines it. -/
theorem body_ofSource (category : Category) {c : Cursor} (of : c.Of source) :
    (ofSource source).body category c = (ofSource source).reply category c := by
  have deeper : Answering source _ _ (ofSource source) (ofDepth ((Lexeme.scan source).length + 1)) :=
    ofDepth_answering (Nat.le_refl _) (Nat.le_succ _)
  rw [ofDepth] at deeper
  have assign (allowIn : Bool) (c : Cursor) (of : c.Of source) := (deeper.assign allowIn c of of.length_le).1
  have statement (c : Cursor) (of : c.Of source) := (deeper.statement c of of.length_le).1
  have definitions := body_deepen (ofSource source) c
  cases category with
  | assign allowIn => exact (assign allowIn c of).symm
  | statement =>
    refine ((body_congr of ?_).symm.trans definitions.1).trans (statement c of).symm
    rintro (allowIn | _ | _) c' of' - <;> simp only [reply]
    exact (assign allowIn c' of').symm
  | element =>
    refine ((body_congr of ?_).symm.trans definitions.2).trans (deeper.element c of of.length_le).1.symm
    rintro (allowIn | _ | _) c' of' - <;> simp only [reply]
    exact (statement c' of').symm

/-! Productions -/

/-- The productions, by what they give. -/
inductive Production : Type → Type where
  | expression (allowIn : Bool) : Production (Node .sequence)
  | assignExpr (allowIn : Bool) : Production (Node .assign)
  | condExpr (allowIn : Bool) : Production (Node .cond)
  | binary (tier : Tier) (allowIn : Bool) : Production (Node (.tier tier))
  | unary : Production (Node .unary)
  | update : Production (Node .update)
  | lhs : Production (Node .lhs)
  | member : Production (Node .member)
  | modifiers (calls : Bool) : Production (List (Node (.modifier calls)))
  | arguments : Production (Node .arguments)
  | optArguments : Production (Option (Node .arguments))
  | index (calls : Bool) : Production (Node (.modifier calls))
  | property (calls : Bool) : Production (Node (.modifier calls))
  | functionExpr : Production (Node .primary)
  | primary : Production (Node .primary)
  | atom : Production (Node .primary)
  | arrayLit : Production (Node .primary)
  | paren : Production (Node .primary)
  | statement : Production (Node .statement)
  | exprStmt : Production (Node .statement)
  | varStmt : Production (Node .statement)
  | varDeclList (allowIn : Bool) : Production (List (Node .declaration))
  | varDecl (allowIn : Bool) : Production (Node .declaration)
  | emptyStmt : Production (Node .statement)
  | parenExpr : Production (Node .sequence)
  | ifStmt : Production (Node .statement)
  | doWhile : Production (Node .statement)
  | whileStmt : Production (Node .statement)
  | optExpr (allowIn : Bool) (closing : Symbol) : Production (Tree (.optional .sequence))
  | loopClauses : Production (Tree (.optional .sequence) × Tree (.optional .sequence) × Node .statement)
  | forStmt : Production (Node .statement)
  | forVarStmt : Production (Span → Node .statement)
  | forInRest : Production (Node .sequence × Node .statement)
  | label : Production (Option Bytes)
  | continueStmt : Production (Node .statement)
  | breakStmt : Production (Node .statement)
  | returnStmt : Production (Node .statement)
  | withStmt : Production (Node .statement)
  | labeled : Production (Node .statement)
  | switchStmt : Production (Node .statement)
  | caseClauses : Production (List (Node .caseClause))
  | defaultClause : Production (Node .defaultClause)
  | statementList : Production (List (Node .statement))
  | throwStmt : Production (Node .statement)
  | tryStmt : Production (Node .statement)
  | catchParam : Production Bytes
  | debugger : Production (Node .statement)
  | blockStmt : Production (Node .statement)
  | block : Production (Node .block)
  | sourceElement : Production (Node .element)
  | functionDecl : Production (Node .element)
  | params : Production (List Bytes)
  | functionBody : Production (Tree (.list .element))

namespace Production

variable {α : Type}

/-- The parser of a production over a grammar. -/
def parser (g : Grammar) : Production α → Parser α
  | expression allowIn => g.sequence allowIn
  | assignExpr allowIn => g.assignExpr allowIn
  | condExpr allowIn => g.cond allowIn
  | binary tier allowIn => Grammar.level tier allowIn (g.operandOf allowIn tier)
  | unary => g.unary
  | update => g.update
  | lhs => g.lhs
  | member => g.member
  | modifiers calls => many (g.modifier calls)
  | arguments => g.arguments
  | optArguments => Parser.optional g.arguments
  | index _ => g.index
  | property _ => Grammar.property
  | functionExpr => g.functionExpr
  | primary => g.primary
  | atom => Grammar.atom
  | arrayLit => g.arrayLit
  | paren => g.paren
  | statement => g.statementForm
  | exprStmt => spanned g.exprStmt
  | varStmt => spanned g.varStmt
  | varDeclList allowIn => separated (g.declaration allowIn)
  | varDecl allowIn => g.declaration allowIn
  | emptyStmt => spanned Grammar.emptyStmt
  | parenExpr => g.headExpr
  | ifStmt => spanned g.ifStmt
  | doWhile => spanned g.doWhile
  | whileStmt => spanned g.whileStmt
  | optExpr allowIn closing => g.clause allowIn closing
  | loopClauses => g.loopRest
  | forStmt => spanned g.forStmt
  | forVarStmt => g.forVarRest
  | forInRest => g.keysRest
  | label => Grammar.label
  | continueStmt => spanned Grammar.continueStmt
  | breakStmt => spanned Grammar.breakStmt
  | returnStmt => spanned g.returnStmt
  | withStmt => spanned g.withStmt
  | labeled => spanned g.labeled
  | switchStmt => spanned g.switchStmt
  | caseClauses => g.caseClauses
  | defaultClause => g.defaultClause
  | statementList => many g.statement
  | throwStmt => spanned g.throwStmt
  | tryStmt => spanned g.tryStmt
  | catchParam => Grammar.catchParam
  | debugger => spanned Grammar.debugger
  | blockStmt => g.blockStmt
  | block => g.block
  | sourceElement => g.body .element
  | functionDecl => g.funcDecl
  | params => Grammar.params
  | functionBody => g.functionBody

/-- The productions that may match nothing. -/
def mayBeEmpty : Production α → Bool
  | modifiers _ | statementList | caseClauses | optExpr _ _ => true
  | _ => false

/-- Whether what a production gives is a success. Where something is optional, its absence is none. -/
def succeeds : Production α → α → Bool
  | optArguments, list => list.isSome
  | label, name => name.isSome
  | _, _ => true

/-- A success that may not be empty takes a lexeme. -/
def Moves (p : Production α) (v : α) (taken : Nat) : Prop := p.mayBeEmpty = false ∧ p.succeeds v = true → 1 ≤ taken

theorem moves_of_eats {Q : α → Prop} {p : Production α} {n : Nat} {q q' : Parser α}
    (answers : Answers source n false (Eats Q) q q') : Answers source n false p.Moves q q' :=
  answers.weaken (fun _ _ eats _ => eats.2) id

/-- What may be empty need not take anything. -/
theorem moves_of_mayBeEmpty {R : α → Nat → Prop} {p : Production α} {n : Nat} {q q' : Parser α}
    (mayBeEmpty : p.mayBeEmpty = true) (answers : Answers source n false R q q') :
    Answers source n false p.Moves q q' :=
  answers.weaken (fun _ _ _ given => by simp [mayBeEmpty] at given) id

/-- Every production answers, and moves on. -/
theorem answers {n : Nat} {g g' : Grammar} (answering : Answering source (n + 1) (n + 1) g g') (p : Production α) :
    Answers source (n + 1) false p.Moves (p.parser g) (p.parser g') := by
  have inner := answering.mono (Nat.le_succ n) (Nat.le_succ n)
  cases p with
  | expression _ => exact moves_of_eats answering.sequence.quiet
  | assignExpr _ => exact moves_of_eats inner.assignExpr.quiet
  | condExpr _ => exact moves_of_eats inner.cond.quiet
  | binary tier _ => exact moves_of_eats (level_answers (inner.operandOf tier)).quiet
  | unary => exact moves_of_eats inner.unary.quiet
  | update => exact moves_of_eats inner.update.quiet
  | lhs => exact moves_of_eats inner.lhs.quiet
  | member => exact moves_of_eats inner.member.quiet
  | modifiers calls => exact moves_of_mayBeEmpty rfl (inner.modifier calls).many
  | arguments => exact moves_of_eats inner.arguments
  | optArguments => exact inner.arguments.optional (fun _ _ eats _ => eats.2) (by rintro ⟨-, ⟨⟩⟩)
  | index _ => exact moves_of_eats inner.index
  | property _ => exact moves_of_eats property_answers
  | functionExpr => exact moves_of_eats inner.functionExpr
  | primary => exact moves_of_eats inner.primary.quiet
  | atom => exact moves_of_eats atom_answers
  | arrayLit => exact moves_of_eats inner.arrayLit
  | paren => exact moves_of_eats inner.paren.quiet
  | statement => exact moves_of_eats (answering.mono (Nat.le_refl _) (Nat.le_succ n)).statementForm
  | exprStmt => exact moves_of_eats answering.exprStmt_spanned
  | varStmt => exact moves_of_eats inner.varStmt.spanned
  | varDeclList _ => exact moves_of_eats answering.declaration.separated.quiet
  | varDecl _ => exact moves_of_eats answering.declaration.quiet
  | emptyStmt => exact moves_of_eats emptyStmt_answers.spanned
  | parenExpr => exact moves_of_eats answering.headExpr.quiet
  | ifStmt => exact moves_of_eats inner.ifStmt.spanned
  | doWhile => exact moves_of_eats inner.doWhile.spanned
  | whileStmt => exact moves_of_eats inner.whileStmt.spanned
  | optExpr _ _ => exact moves_of_mayBeEmpty rfl answering.clause.quiet
  | loopClauses => exact moves_of_eats answering.loopRest
  | forStmt => exact moves_of_eats inner.forStmt.spanned
  | forVarStmt => exact answering.forVarRest.weaken (fun _ _ built _ => (built ⟨0, 0⟩).2) id
  | forInRest => exact moves_of_eats answering.keysRest
  | label => exact label_answers.weaken (fun _ _ eats given => eats given.2) id
  | continueStmt => exact moves_of_eats continueStmt_answers
  | breakStmt => exact moves_of_eats breakStmt_answers
  | returnStmt => exact moves_of_eats inner.returnStmt
  | withStmt => exact moves_of_eats inner.withStmt.spanned
  | labeled => exact moves_of_eats inner.labeled.spanned
  | switchStmt => exact moves_of_eats inner.switchStmt.spanned
  | caseClauses => exact moves_of_mayBeEmpty rfl answering.caseClauses
  | defaultClause => exact moves_of_eats answering.defaultClause
  | statementList => exact moves_of_mayBeEmpty rfl answering.statement.many
  | throwStmt => exact moves_of_eats inner.throwStmt
  | tryStmt => exact moves_of_eats inner.tryStmt.spanned
  | catchParam => exact moves_of_eats catchParam_answers
  | debugger => exact moves_of_eats debugger_answers.spanned
  | blockStmt => exact moves_of_eats inner.blockStmt
  | block => exact moves_of_eats inner.block
  | sourceElement =>
    exact moves_of_eats (inner.funcDecl.either (answering.statement.map (f := Tree.ofStatement) fun _ _ eats => eats))
  | functionDecl => exact moves_of_eats inner.funcDecl
  | params => exact moves_of_eats params_answers
  | functionBody => exact moves_of_eats answering.functionBody.quiet

end Production

/-! Loops -/

/-- The loops of the productions, by what a round finds. -/
inductive Loop : Type → Type where
  | assigns (allowIn : Bool) : Loop (Node .assign)
  | declarations (allowIn : Bool) : Loop (Node .declaration)
  | names : Loop Bytes
  | operations (tier : Tier) (allowIn : Bool) : Loop (Node (.operation tier))
  | signs : Loop UnaryOp
  | news : Loop Nat
  | modifiers (calls : Bool) : Loop (Node (.modifier calls))
  | array : Loop (Node .assign)
  | statements : Loop (Node .statement)
  | cases : Loop (Node .caseClause)
  | elements : Loop (Node .element)

namespace Loop

variable {α : Type}

/-- One round of a loop over a grammar. -/
def round (g : Grammar) : Loop α → Parser (List α × Bool)
  | assigns allowIn => commaRound (g.assign allowIn)
  | declarations allowIn => commaRound (g.declaration allowIn)
  | names => commaRound identifier
  | operations tier allowIn => manyRound (operation tier allowIn (g.operandOf allowIn tier))
  | signs => tokenRound UnaryOp.ofToken?
  | news => newRound
  | modifiers calls => manyRound (g.modifier calls)
  | array => g.arrayRound
  | statements => manyRound g.statement
  | cases => g.caseRound
  | elements => g.bodyRound

theorem goesOn_weaken {Q : α → Prop} {n : Nat} {q q' : Parser (List α × Bool)}
    (answers : Answers source n false (GoesOn Q) q q') : Answers source n false (GoesOn fun _ => True) q q' :=
  answers.weaken (fun _ _ goesOn => ⟨fun _ _ => trivial, goesOn.2⟩) id

/-- Every round answers, and moves on unless it is the last. -/
theorem answers {n : Nat} {g g' : Grammar} (answering : Answering source (n + 1) (n + 1) g g') (l : Loop α) :
    Answers source (n + 1) false (GoesOn fun _ => True) (l.round g) (l.round g') := by
  have inner := answering.mono (Nat.le_succ n) (Nat.le_succ n)
  cases l with
  | assigns allowIn => exact goesOn_weaken (answering.assign allowIn).commaRound.quiet
  | declarations _ => exact goesOn_weaken answering.declaration.commaRound.quiet
  | names =>
    have name : Answers source (n + 1) false (Eats fun _ => True) identifier identifier :=
      answers_identifier.weaken (by rintro _ _ rfl; exact ⟨trivial, Nat.le_refl 1⟩) id
    exact name.commaRound
  | operations tier _ => exact goesOn_weaken (operation_answers (inner.operandOf tier)).manyRound
  | signs => exact answers_tokenRound rfl
  | news => exact newRound_answers
  | modifiers calls => exact goesOn_weaken (inner.modifier calls).manyRound
  | array => exact goesOn_weaken answering.arrayRound
  | statements => exact goesOn_weaken answering.statement.manyRound
  | cases => exact goesOn_weaken answering.caseRound
  | elements => exact goesOn_weaken answering.bodyRound.quiet

end Loop

end Grammar

namespace Program

open EcmaFold.Parser Grammar

/-- A result leads on in the source, farther to the right if a lexeme was taken for it. -/
theorem of_answers_gives {α : Type} {source : Bytes} {n : Nat} {told : Bool} {R : α → Nat → Prop} {p q : Parser α}
    {c after : Cursor} {v : α} (answers : Answers source n told R p q) (of : c.Of source) (short : c.rest.length ≤ n)
    (run : p.Gives c v after) : after.Of source ∧ ∃ taken, R v taken ∧ (1 ≤ taken → c.offset < after.stop) := by
  obtain ⟨on, nonempty, taken, length, related⟩ := (answers c of short).2.leads v after run
  refine ⟨of.leads on nonempty, taken, related, fun positive => ?_⟩
  exact (of.exists_taken on nonempty (by omega)).1

/-- Reading ends on every source. What defines a category depends only on replies of smaller measure, every production
and every round of a loop that has to moves on, and neither more depth, nor more rounds, nor anything that the grammar
could nest in beyond the depth that the source allows changes a reply or the reading as a whole. -/
theorem reading_terminates (source : Bytes) :
    (Lexeme.scan source).length ≤ source.length + 1 ∧
    (∀ (category : Category) (c : Cursor) (g : Grammar), c.Of source →
      (∀ (category' : Category) (c' : Cursor), c'.Of source →
        Prod.Lex (· < ·) (· < ·) (c'.bytesLeft source, category'.rank) (c.bytesLeft source, category.rank) →
        g.reply category' c' = (Grammar.ofSource source).reply category' c') →
      g.body category c = (Grammar.ofSource source).reply category c) ∧
    (∀ (α : Type) (p : Production α) (c after : Cursor) (v : α), c.Of source →
      (p.parser (Grammar.ofSource source)).Gives c v after →
      after.Of source ∧ (p.mayBeEmpty = false → p.succeeds v = true → c.offset < after.stop)) ∧
    (∀ (α : Type) (l : Loop α) (c after : Cursor) (found : List α), c.Of source →
      (l.round (Grammar.ofSource source)).Gives c (found, true) after → after.Of source ∧ c.offset < after.stop) ∧
    ∀ (h : Grammar) (depth : Nat) (bound : List Lexeme),
      (Lexeme.scan source).length ≤ depth → (Lexeme.scan source).length ≤ bound.length →
      (∀ (α : Type) (p : Production α) (c : Cursor), c.Of source →
        p.parser (deepen^[depth] h) c = p.parser (Grammar.ofSource source) c) ∧
      (∀ (α : Type) (l : Loop α) (c : Cursor), c.Of source →
        rounds (l.round (deepen^[depth] h)) bound c = loop (l.round (Grammar.ofSource source)) c) ∧
      Reading.elementsFrom (deepen^[depth] h) bound (.ofSource source) = Reading.ofLexemes (Lexeme.scan source) := by
  obtain ⟨n, length, answering⟩ := exists_answering (ofDepth 0) (Nat.le_refl (Lexeme.scan source).length)
  refine ⟨Lexeme.length_scan_le source, ?_, ?_, ?_, ?_⟩
  · intro category c g of agree
    exact (body_congr of agree).trans (body_ofSource category of)
  · intro α p c after v of run
    obtain ⟨behind, taken, moves, farther⟩ := of_answers_gives (p.answers answering) of (length ▸ of.length_le) run
    exact ⟨behind, fun notEmpty success => farther (moves ⟨notEmpty, success⟩)⟩
  · intro α l c after found of run
    obtain ⟨behind, taken, goesOn, farther⟩ := of_answers_gives (l.answers answering) of (length ▸ of.length_le) run
    exact ⟨behind, farther (goesOn.2 rfl)⟩
  · intro h depth bound deep enough
    obtain ⟨n', length', answering⟩ := exists_answering h deep
    refine ⟨fun α p c of => ?_, fun α l c of => ?_, ?_⟩
    · exact (p.answers answering c of (length' ▸ of.length_le)).1.symm
    · have round := (l.answers answering).mono (length' ▸ of.length_le)
      exact (round.rounds c.rest bound (Nat.le_refl _) (Nat.le_trans of.length_le enough) c of (Nat.le_refl _)).1.symm
    · rw [← length'] at answering
      exact (Reading.elementsFrom_answers answering (Lexeme.scan source) bound (Nat.le_refl _) enough (.ofSource source)
        (Cursor.of_ofSource source) (Nat.le_refl _)).1.symm

/-- In `a;`, a statement is read as its definition says and moves on, and so does the loop over statements. -/
theorem reading_terminates_statement :
    (ofSource (utf8 "a;")).body .statement (.ofSource (utf8 "a;")) =
      (ofSource (utf8 "a;")).reply .statement (.ofSource (utf8 "a;")) ∧
    (∃ v after, (Production.statement.parser (ofSource (utf8 "a;"))).Gives (.ofSource (utf8 "a;")) v after ∧
      (Cursor.ofSource (utf8 "a;")).offset < after.stop) ∧
    (∃ found after, (Loop.statements.round (ofSource (utf8 "a;"))).Gives (.ofSource (utf8 "a;")) (found, true) after ∧
      (Cursor.ofSource (utf8 "a;")).offset < after.stop) ∧
    Reading.elementsFrom (deepen^[5] (ofDepth 0)) (Lexeme.scan (utf8 "a;")) (.ofSource (utf8 "a;")) =
      Reading.ofLexemes (Lexeme.scan (utf8 "a;")) := by
  obtain ⟨-, defined, moves, goesOn, settled⟩ := reading_terminates (utf8 "a;")
  have of := Cursor.of_ofSource (utf8 "a;")
  refine ⟨defined .statement _ _ of fun _ _ _ _ => rfl, ?_, ?_, ?_⟩
  · have found : (Production.statement.parser (ofSource (utf8 "a;")) (.ofSource (utf8 "a;"))).result.isSome := by
      decide +kernel
    obtain ⟨⟨v, after⟩, run⟩ := Option.isSome_iff_exists.mp found
    exact ⟨v, after, run, (moves _ .statement _ _ v of run).2 rfl rfl⟩
  · have notLast : (Loop.statements.round (ofSource (utf8 "a;")) (.ofSource (utf8 "a;"))).result.map (·.1.2) =
        some true := by decide +kernel
    obtain ⟨⟨⟨found, more⟩, after⟩, run, rfl⟩ := Option.map_eq_some_iff.mp notLast
    exact ⟨found, after, run, (goesOn _ .statements _ _ found of run).2⟩
  · exact (settled (ofDepth 0) 5 _ (by decide +kernel) (Nat.le_refl _)).2.2

end Program

end EcmaFold
