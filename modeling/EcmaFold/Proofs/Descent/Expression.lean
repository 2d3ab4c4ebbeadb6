import EcmaFold.Proofs.Descent.Probes
import EcmaFold.Proofs.Termination

/-!
Every production of expressions follows that of the grammar of the source, if the productions it is written over do.
-/

namespace EcmaFold

namespace Grammar

variable {α : Type} {source : Bytes}

/-- An assignment that is still to be told its place. -/
def unplacedAssign (g : Grammar) (allowIn : Bool) : Parser (Span → Node .assign) := do
  let value ← g.cond allowIn
  match value.bareLhs? with
  | none => return fun span => .assign span .nil value
  | some lhs =>
    match ← Parser.accept AssignOp.ofToken? with
    | none => return fun span => .assign span .nil value
    | some op =>
      let rest ← g.assign allowIn
      return Tree.addTarget lhs op rest

theorem assignExpr_eq (g : Grammar) (allowIn : Bool) :
    g.assignExpr allowIn = Parser.spanned (g.unplacedAssign allowIn) := rfl

/-- An expression in parentheses, in a primary expression that starts where it is told. -/
def parenFrom (g : Grammar) (start : Nat) : Parser (Node .primary) := do
  if ← Parser.take (.punct .lparen) then
    let expr ← g.sequence true
    Parser.expect (.punct .rparen)
    return .paren ⟨start, ← Parser.reached⟩ expr
  Parser.failMissing .expression

theorem paren_eq (g : Grammar) (c : Cursor) : g.paren c = g.parenFrom c.offset c := by
  rw [paren, Parser.spanned_eq, Parser.bind_assoc]
  refine Parser.bind_congr_at fun b between _ => ?_
  cases b with
  | false => rfl
  | true =>
    simp only [if_true, Parser.bind_assoc]
    rfl

/-- The token of an atom is taken before the other alternatives are tried. -/
theorem primary_eq (g : Grammar) : g.primary = (do
    let start ← Parser.offset
    match ← Parser.accept atom? with
    | some build => return build ⟨start, ← Parser.reached⟩
    | none => g.arrayLit <|> g.parenFrom start) := by
  funext c
  change (atom <|> (g.arrayLit <|> g.paren)) c = (Parser.accept atom? >>= fun token => _) c
  rcases Parser.fails_or_gives (Parser.accept atom?) c with stuck | ⟨_ | build, after, run⟩
  · exact (Parser.accept_fails.mp stuck).elim
  · obtain ⟨none, rfl⟩ := Parser.accept_gives_none.mp run
    have nothing : atom after = ⟨Option.none, Option.none⟩ := by
      rw [atom, Parser.spanned_eq, Parser.bind_assoc, Parser.accept_bind_of_none none]
      rfl
    rw [Parser.accept_bind_of_none none, Parser.either_of_fails (by rw [Parser.Fails, nothing]), nothing,
      Failure.none_merge]
    change (g.arrayLit <|> g.paren) after = (g.arrayLit <|> g.parenFrom after.offset) after
    rcases Parser.fails_or_gives g.arrayLit after with stuck | ⟨array, behind, run⟩
    · rw [Parser.either_of_fails stuck, Parser.either_of_fails stuck, paren_eq]
    · rw [Parser.either_of_gives run, Parser.either_of_gives run]
  · obtain ⟨token, steps, selected⟩ := Parser.accept_gives_some.mp run
    have found : atom c = ⟨some (build ⟨c.offset, after.stop⟩, after), none⟩ := by
      rw [atom, Parser.spanned_eq, Parser.bind_assoc, Parser.accept_bind_of_steps steps selected]
      rfl
    rw [Parser.accept_bind_of_steps steps selected, Parser.either_of_gives (by rw [Parser.Gives, found]), found]
    rfl

/-- A round that is not the last leaves fewer lexemes. -/
theorem Loop.shortens (l : Loop α) : Descent.Shortens source (l.round (ofSource source)) := by
  intro c after found of run
  obtain ⟨n, length, answering⟩ := exists_answering (ofDepth 0) (Nat.le_refl (Lexeme.scan source).length)
  obtain ⟨-, -, taken, fewer, goesOn⟩ := (l.answers answering c of (length ▸ of.length_le)).2.leads _ after run
  have positive := goesOn.2 rfl
  omega

end Grammar

namespace Descent

variable {α β γ : Type} {source : Bytes} {n m : Nat} {allowIn : Bool} {x y : Place} {s : State} {c : Cursor}

namespace Productions

/-- The productions follow the grammar of the source: assignments with up to `m` lexemes left, statements and source
elements with up to `n`. -/
structure Following (source : Bytes) (m n : Nat) (g : Productions) : Prop where
  assign : ∀ allowIn, Follows source m allowIn .loose .close g.assign ((Grammar.ofSource source).assign allowIn)
  statement : Follows source n true .loose .close g.statement (Grammar.ofSource source).statement
  element : Follows source n true .loose .close g.element (Grammar.ofSource source).element

variable {g : Productions}

theorem Following.mono {m' n' : Nat} (following : Following source m n g) (fewer : m' ≤ m) (fewer' : n' ≤ n) :
    Following source m' n' g where
  assign allowIn := (following.assign allowIn).mono fewer
  statement := following.statement.mono fewer'
  element := following.element.mono fewer'

theorem Following.separated (following : Following source m n g) : Follows source m allowIn x .close
    (Descent.separated g.assign) (Parser.separated ((Grammar.ofSource source).assign allowIn)) :=
  (following.assign allowIn).separated (Grammar.Loop.assigns allowIn).shortens

theorem Following.sequence (following : Following source m n g) :
    Follows source m allowIn x .close g.sequence ((Grammar.ofSource source).sequence allowIn) :=
  Follows.spanned (following.separated.bind fun _ => follows_pure)

/-! Functions -/

theorem follows_params : Follows source n allowIn x .close params Grammar.params := by
  refine follows_expect (by decide) (follows_take (by decide) (Nat.le_succ n) follows_pure ?_)
  refine (follows_identifier.separated Grammar.Loop.names.shortens).bind fun names => ?_
  exact follows_expect (by decide) follows_pure

theorem Following.functionBody (following : Following source n n g) :
    Follows source n allowIn x .close g.functionBody (Grammar.ofSource source).functionBody := by
  refine Follows.withIn (follows_expect (by decide) (Follows.bind (y := .close) ?_ fun body => follows_pure))
  refine Follows.loop ?_ Grammar.Loop.elements.shortens
  exact follows_probe (by decide) (Nat.le_succ n) follows_pure (following.element.close.bind fun _ => follows_pure)

theorem Following.functionExpr (following : Following source n n g) :
    Follows source (n + 1) allowIn x .close g.functionExpr (Grammar.ofSource source).functionExpr := by
  refine Follows.spanned (follows_require (by decide) (probes_identifier.follows_self.bind fun name => ?_))
  exact follows_params.bind fun params => following.functionBody.bind fun body => follows_pure

/-! Primary expressions -/

theorem Following.arrayLit (following : Following source n n g) :
    Follows source (n + 1) allowIn x .close g.arrayLit (Grammar.ofSource source).arrayLit := by
  refine Follows.spanned (follows_require (by decide) (Follows.withIn ?_))
  refine Follows.bind (y := .close) (Follows.loop ?_ Grammar.Loop.array.shortens) fun elements => follows_pure
  refine follows_take (by decide) (Nat.le_succ n) follows_pure ?_
  refine follows_take (by decide) (Nat.le_succ n) follows_pure ?_
  refine (following.assign true).close.bind fun element => ?_
  refine follows_take (by decide) (Nat.le_succ n) follows_pure ?_
  exact follows_expect (by decide) follows_pure

theorem Following.paren (following : Following source n n g) (start : Nat) : Follows source (n + 1) allowIn x .close
    (g.paren start) ((Grammar.ofSource source).parenFrom start) := by
  refine follows_take (by decide) (Nat.le_refl _) ?_ follows_failMissing
  refine following.sequence.withIn.bind fun expr => follows_expect (by decide) ?_
  exact follows_mark.bind fun stop => follows_pure

theorem Following.primary (following : Following source n n g) :
    Follows source (n + 1) allowIn x .close g.primary (Grammar.ofSource source).primary := by
  rw [Grammar.primary_eq]
  refine follows_start.bind fun start => probes_atom.follows (Nat.le_succ _) (fun _ build _ => ?_) ?_
  · exact follows_mark.bind fun stop => follows_pure
  · exact following.arrayLit.either (following.paren start)

/-! Accesses and calls -/

theorem Following.arguments (following : Following source n n g) :
    Follows source (n + 1) allowIn x .close g.arguments (Grammar.ofSource source).arguments := by
  refine Follows.spanned (follows_require (by decide) (Follows.withIn ?_))
  refine follows_take (by decide) (Nat.le_succ n) follows_pure ?_
  exact following.separated.bind fun list => follows_expect (by decide) follows_pure

theorem Following.index {calls : Bool} (following : Following source n n g) : Follows source (n + 1) allowIn x .close
    (g.index : Descent (Node (.modifier calls))) (Grammar.ofSource source).index := by
  refine Follows.spanned (follows_require (by decide) (Follows.withIn ?_))
  exact following.sequence.bind fun expr => follows_expect (by decide) follows_pure

theorem Following.modifier (following : Following source n n g) (calls : Bool) :
    Follows source (n + 1) allowIn x .close (g.modifier calls) ((Grammar.ofSource source).modifier calls) := by
  cases calls with
  | false => exact following.index.either follows_property
  | true => exact following.arguments.map.either (following.index.either follows_property)

theorem Following.modifiers (following : Following source n n g) (calls : Bool) : Follows source (n + 1) allowIn x x
    (many (g.modifier calls)) (Parser.many ((Grammar.ofSource source).modifier calls)) :=
  (following.modifier calls).many (Grammar.Loop.modifiers calls).shortens

theorem Following.member (following : Following source n n g) :
    Follows source (n + 1) allowIn x .close g.member (Grammar.ofSource source).member := by
  refine Follows.spanned ((following.functionExpr.either following.primary).bind fun target => ?_)
  exact (following.modifiers false).bind fun modifiers => follows_pure

theorem follows_news : Follows source n allowIn .loose .loose news Grammar.news := by
  refine Follows.loop (follows_start.bind fun start => ?_) Grammar.Loop.news.shortens
  exact follows_take (by decide) (Nat.le_succ n) follows_pure.loosen follows_pure

theorem Following.pairNews (following : Following source n n g) (starts : List Nat) (target : Node .member) :
    Follows source (n + 1) allowIn .close .close (g.pairNews starts target)
      ((Grammar.ofSource source).pairNews starts target) := by
  induction starts generalizing target with
  | nil => exact follows_pure
  | cons start outer ih =>
    refine following.arguments.optional.bind fun args => ?_
    cases args with
    | none => exact follows_pure
    | some args =>
      refine follows_mark.bind fun stop => (following.modifiers false).bind fun modifiers => ?_
      cases modifiers with
      | nil => exact ih _
      | cons first others => exact follows_mark.bind fun last => ih _

theorem Following.lhs (following : Following source n n g) :
    Follows source (n + 1) allowIn x .close g.lhs (Grammar.ofSource source).lhs := by
  refine Follows.spanned (follows_news.bind fun starts => following.member.bind fun first => ?_)
  refine (following.pairNews starts.reverse first).bind fun ⟨unpaired, target⟩ => ?_
  cases unpaired with
  | cons start rest => exact follows_pure
  | nil =>
    refine following.arguments.optional.bind fun args => ?_
    cases args with
    | none => exact follows_pure
    | some args => exact (following.modifiers true).bind fun modifiers => follows_pure

/-! Operators -/

theorem Following.update (following : Following source n n g) :
    Follows source (n + 1) allowIn x .close g.update (Grammar.ofSource source).update := by
  refine Follows.spanned (following.lhs.bind fun operand => follows_newlineAhead.bind fun breaks => ?_)
  cases breaks with
  | true => exact follows_pure
  | false => exact probes_updateOp.follows_self.bind fun op => follows_pure

theorem Following.unary (following : Following source n n g) :
    Follows source (n + 1) allowIn x .close g.unary (Grammar.ofSource source).unary := by
  refine Follows.spanned ((probes_unaryOp.manyFound Grammar.Loop.signs.shortens).bind fun ops => ?_)
  exact following.update.bind fun operand => follows_pure

theorem follows_operation {tier : Tier} {operand : Descent (Node tier.operand)} {operand' : Parser (Node tier.operand)}
    (follows : Follows source n allowIn .loose .close operand operand') :
    Follows source n allowIn x .close (operation tier operand) (Grammar.operation tier allowIn operand') := by
  refine follows_start.bind fun start => (probes_operator tier).follows (Nat.le_succ n) (fun _ op _ => ?_) follows_fail
  exact follows.close.bind fun right => follows_pure

theorem follows_level {tier : Tier} {operand : Descent (Node tier.operand)}
    (follows : Follows source n allowIn .loose .close operand ((Grammar.ofSource source).operandOf allowIn tier)) :
    Follows source n allowIn .loose .close (level tier operand)
      (Grammar.level tier allowIn ((Grammar.ofSource source).operandOf allowIn tier)) := by
  refine Follows.spanned (follows.bind fun head => ?_)
  have operations := (follows_operation follows).many (x := .close) (Grammar.Loop.operations tier allowIn).shortens
  exact operations.bind fun operations => follows_pure

theorem Following.logicalOr (following : Following source n n g) :
    Follows source (n + 1) allowIn .loose .close g.logicalOr ((Grammar.ofSource source).logicalOr allowIn) := by
  have multiplicative : Follows source (n + 1) allowIn .loose .close g.multiplicative _ := follows_level following.unary
  have additive : Follows source (n + 1) allowIn .loose .close g.additive _ := follows_level multiplicative
  have shift : Follows source (n + 1) allowIn .loose .close g.shift _ := follows_level additive
  have relational : Follows source (n + 1) allowIn .loose .close g.relational _ := follows_level shift
  have equality : Follows source (n + 1) allowIn .loose .close g.equality _ := follows_level relational
  have bitAnd : Follows source (n + 1) allowIn .loose .close g.bitAnd _ := follows_level equality
  have bitXor : Follows source (n + 1) allowIn .loose .close g.bitXor _ := follows_level bitAnd
  have bitOr : Follows source (n + 1) allowIn .loose .close g.bitOr _ := follows_level bitXor
  have logicalAnd : Follows source (n + 1) allowIn .loose .close g.logicalAnd _ := follows_level bitOr
  exact follows_level logicalAnd

theorem Following.cond (following : Following source n n g) :
    Follows source (n + 1) allowIn x .close g.cond ((Grammar.ofSource source).cond allowIn) := by
  refine Follows.spanned (following.logicalOr.bind fun test => ?_)
  refine follows_take (by decide) (Nat.le_refl _) ?_ follows_pure
  refine (following.assign true).close.withIn.bind fun yes => follows_expect (by decide) ?_
  exact (following.assign allowIn).close.bind fun no => follows_pure

/-! Assignments -/

/-- The assignment that targets and a value make. -/
def assignment (found : List (Node .target) × Node .cond) (span : Span) : Node .assign :=
  .assign span (.ofList found.1) found.2

/-- A loop over the targets comes to what the grammar reads one assignment within the other. -/
theorem Following.targets (following : Following source n n g) (bound k : Nat) (enough : k ≤ bound)
    (short : k ≤ n + 1) : Follows source k allowIn .loose .close (assignment <$> g.targets bound)
      ((Grammar.ofSource source).unplacedAssign allowIn) := by
  induction bound generalizing k with
  | zero =>
    intro s c meets none
    exact absurd (List.length_pos_iff.mpr meets.scanned.of.ne_nil) (by omega)
  | succ bound ih =>
    change Follows _ _ _ _ _ ((g.cond >>= fun value => _) >>= fun found => pure (assignment found)) _
    rw [bind_assoc]
    refine (following.cond.mono short).bind fun value => ?_
    cases value.bareLhs? with
    | none => exact follows_pure
    | some lhs =>
      change Follows _ _ _ _ _ ((assignOp? >>= fun op => _) >>= fun found => pure (assignment found)) _
      rw [bind_assoc]
      have fewer : k ≤ k - 1 + 1 := by omega
      refine probes_assignOp.follows fewer (fun _ op _ => ?_) follows_pure
      change Follows _ _ _ _ _ ((g.targets bound >>= fun found => _) >>= fun found => pure (assignment found)) _
      rw [bind_assoc]
      -- The assignment behind the operator is the rest of the loop, with one more target in front.
      have rest : Follows source (k - 1) allowIn .close .close
          ((fun found => assignment (.target lhs op :: found.1, found.2)) <$> g.targets bound)
          (Tree.addTarget lhs op <$> Parser.spanned ((Grammar.ofSource source).unplacedAssign allowIn)) :=
        (ih (k - 1) (by omega) (by omega)).close.rebuild (f := Tree.addTarget lhs op) fun found span => rfl
      refine rest.congr fun c of => ?_
      exact Parser.bind_of_same (Grammar.body_ofSource (.assign allowIn) of).symm _

theorem Following.assignExpr (following : Following source n n g) :
    Follows source (n + 1) allowIn x .close g.assignExpr ((Grammar.ofSource source).assignExpr allowIn) := by
  rw [Grammar.assignExpr_eq]
  refine Follows.spanned fun s c meets short => ?_
  have asked : roundLimit s = (some (source.length + 1), s) := by
    rw [← meets.sameSource]
    rfl
  have enough := Nat.le_trans meets.scanned.of.suffix.length_le (Lexeme.length_scan_le source)
  rw [bind_of_some asked]
  exact following.targets _ _ enough short s c meets (Nat.le_refl _)

end Productions

end Descent

end EcmaFold
