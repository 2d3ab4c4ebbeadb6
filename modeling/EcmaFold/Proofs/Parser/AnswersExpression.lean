import EcmaFold.Proofs.Lexer.Lines
import EcmaFold.Proofs.Parser.Answers
import EcmaFold.Proofs.Tree.WellFormed
import EcmaFold.Proofs.Vocabulary

/-!
Every production of expressions answers, if the grammar it is written over does. What it reads takes a lexeme, and it
is told why it fails.
-/

namespace EcmaFold

namespace Tree

/-- The source shows what the node says of its tokens: a name or a literal is the lexeme that it covers, and an
expression statement begins with a lexeme that is not `function`. What has to stand on one line does: an operator behind
its operand, a label behind `continue` or `break`, and a value behind `return` or `throw`. -/
def Attested (source : Bytes) : (shape : Shape) → Tree shape → Prop
  | _, ident span name =>
    ∃ lexeme ∈ Lexeme.scan source, lexeme.At source ∧ lexeme.span = span ∧ lexeme.token = .name name
  | _, numberLit span value =>
    ∃ lexeme ∈ Lexeme.scan source, lexeme.At source ∧ lexeme.span = span ∧ lexeme.token = .number value
  | _, stringLit span value =>
    ∃ lexeme ∈ Lexeme.scan source, lexeme.At source ∧ lexeme.span = span ∧ lexeme.token = .string value
  | _, exprStmt span _ => ∃ lexeme ∈ Lexeme.scan source, lexeme.At source ∧ lexeme.span.start = span.start ∧
      lexeme.token ≠ .keyword .kwFunction
  | _, update span operand (some op) => ∃ before lexeme, Lexeme.Joined source before lexeme ∧
      before.span.stop = operand.span.stop ∧ lexeme.span.stop = span.stop ∧ lexeme.token = op.token
  | _, continueStmt span (some label) =>
    ∃ lexeme : Lexeme, lexeme.BehindWord source .kwContinue span.start ∧ lexeme.token = .name label
  | _, breakStmt span (some label) =>
    ∃ lexeme : Lexeme, lexeme.BehindWord source .kwBreak span.start ∧ lexeme.token = .name label
  | _, returnStmt span (present value) =>
    ∃ lexeme : Lexeme, lexeme.BehindWord source .kwReturn span.start ∧ lexeme.span.start = value.span.start
  | _, throwStmt span value =>
    ∃ lexeme : Lexeme, lexeme.BehindWord source .kwThrow span.start ∧ lexeme.span.start = value.span.start
  | _, _ => True

/-- All nodes of the tree are attested by the source. -/
abbrev Faithful (source : Bytes) {shape : Shape} (tree : Tree shape) : Prop := tree.All (Attested source)

theorem faithful_ofOption {source : Bytes} {kind : Kind} {node : Option (Node kind)}
    (good : ∀ present ∈ node, present.Faithful source) : (ofOption node).Faithful source := by
  cases node with
  | none => trivial
  | some present => exact good present rfl

theorem faithful_addTarget {source : Bytes} {lhs : Node .lhs} {op : AssignOp} {rest : Node .assign} {span : Span}
    (goodLhs : lhs.Faithful source) (goodRest : rest.Faithful source) :
    (addTarget lhs op rest span).Faithful source := by
  cases rest with
  | assign _ targets value => exact ⟨trivial, ⟨goodLhs, goodRest.2.1⟩, goodRest.2.2⟩

end Tree

namespace Parser

variable {α : Type} {source : Bytes} {n : Nat} {told : Bool} {R : α → Nat → Prop} {p q : Parser α}

/-- What is built is related where it is placed, if the run that built it shows so. -/
theorem Answers.spannedAt {Q : (Span → α) → Nat → Prop} {p q : Parser (Span → α)}
    (answers : Answers source n told Q p q)
    (placed : ∀ (c : Cursor) build after taken, c.Of source → c.rest.length ≤ n → p.Gives c build after →
      c.Leads after → after.rest ≠ [] → after.rest.length + taken = c.rest.length → Q build taken →
      R (build ⟨c.offset, after.stop⟩) taken) : Answers source n told R (Parser.spanned p) (Parser.spanned q) := by
  have taking : Answers source n told (fun _ _ => True) (Parser.spanned p) (Parser.spanned q) :=
    (answers.weaken (fun _ _ _ _ => trivial) id).spanned
  intro c of short
  obtain ⟨same, explains, reports, leads⟩ := taking c of short
  refine ⟨same, explains, reports, fun v after run => ?_⟩
  obtain ⟨on, nonempty, taken, length, -⟩ := leads v after run
  obtain ⟨build, inner, rfl⟩ := spanned_gives.mp run
  obtain ⟨-, -, taken', length', related⟩ := (answers c of short).2.leads build after inner
  obtain rfl : taken' = taken := by omega
  exact ⟨on, nonempty, taken', length, placed c build after taken' of short inner on nonempty length related⟩

end Parser

namespace Grammar

open EcmaFold.Parser EcmaFold.Tree

/-- The grammars answer: assignments with up to `m` lexemes left, statements and source elements with up to `n`. A
statement can fail without a word, in front of `function`. -/
structure Answering (source : Bytes) (m n : Nat) (g g' : Grammar) : Prop where
  assign : ∀ allowIn, Answers source m true (Eats (Faithful source)) (g.assign allowIn) (g'.assign allowIn)
  statement : Answers source n false (Eats (Faithful source)) g.statement g'.statement
  element : Answers source n true (Eats (Faithful source)) g.element g'.element

variable {source : Bytes} {m n : Nat} {told : Bool} {g g' : Grammar} {allowIn : Bool}

theorem Answering.mono {m' n' : Nat} (answering : Answering source m n g g') (fewer : m' ≤ m) (fewer' : n' ≤ n) :
    Answering source m' n' g g' where
  assign allowIn := (answering.assign allowIn).mono fewer
  statement := answering.statement.mono fewer'
  element := answering.element.mono fewer'

theorem Answering.sequence (answering : Answering source m n g g') :
    Answers source m true (Eats (Faithful source)) (g.sequence allowIn) (g'.sequence allowIn) := by
  refine Answers.spanned ((answering.assign allowIn).separated.bind ?_)
  rintro list taken ⟨good, positive⟩
  exact answers_pure fun span => ⟨⟨trivial, all_ofList.mpr good⟩, positive⟩

/-! Functions -/

theorem params_answers : Answers source n told (Eats fun _ => True) params params := by
  refine answers_expect (answers_take (Nat.le_succ _) (answers_pure ⟨trivial, by omega⟩) ?_)
  have name : Answers source n told (Eats fun _ => True) identifier identifier :=
    answers_identifier.weaken (by rintro _ _ rfl; exact ⟨trivial, Nat.le_refl 1⟩) id
  refine name.separated.bind fun names taken _ => answers_expect (answers_pure ?_)
  exact ⟨trivial, by omega⟩

/-- The closing brace, or one more source element. -/
def bodyRound (g : Grammar) : Parser (List (Node .element) × Bool) := do
  if ← probe (.punct .rbrace) then return ([], false)
  let element ← g.element
  return ([element], true)

theorem functionBody_eq (g : Grammar) : g.functionBody = (do
    expect (.punct .lbrace)
    let body ← loop g.bodyRound
    return .ofList body) := rfl

theorem Answering.bodyRound (answering : Answering source n n g g') :
    Answers source n true (GoesOn (Faithful source)) g.bodyRound g'.bodyRound := by
  refine answers_probe (Nat.le_succ _) (answers_pure ⟨List.forall_mem_nil _, by rintro ⟨⟩⟩) ?_
  refine answering.element.bind ?_
  rintro element taken ⟨good, positive⟩
  exact answers_pure ⟨List.forall_mem_singleton.mpr good, fun _ => positive⟩

theorem Answering.functionBody (answering : Answering source n n g g') :
    Answers source n true (Eats (Faithful source)) g.functionBody g'.functionBody := by
  rw [functionBody_eq, functionBody_eq]
  refine answers_expect (answering.bodyRound.loop.bind fun body taken good => ?_)
  exact answers_pure ⟨all_ofList.mpr good, by omega⟩

theorem Answering.functionExpr (answering : Answering source n n g g') :
    Answers source (n + 1) false (Eats (Faithful source)) g.functionExpr g'.functionExpr := by
  have behind (name : Option Bytes) : Answers source n false
      (fun (build : Span → Node .primary) taken => ∀ span, Eats (Faithful source) (build span) (1 + taken))
      (do
        let params ← params
        let body ← g.functionBody
        return fun span => .funcExpr span name params body)
      (do
        let params ← params
        let body ← g'.functionBody
        return fun span => .funcExpr span name params body) := by
    refine params_answers.bind fun params taken _ => answering.functionBody.quiet.bind ?_
    rintro body more ⟨good, -⟩
    exact answers_pure fun span => ⟨⟨trivial, good⟩, by omega⟩
  refine Answers.spanned (answers_require (answers_identifier? (Nat.le_succ _) (fun name => ?_) (behind none)))
  exact (behind (some name)).weaken (fun build taken built span => ⟨(built span).1, by omega⟩) id

/-! Primary expressions -/

/-- What one token makes is attested by it. -/
theorem faithful_atom {t : Token} {build : Span → Node .primary} (found : atom? t = some build) {lexeme : Lexeme}
    (stands : lexeme.At source) (listed : lexeme ∈ Lexeme.scan source) (isToken : lexeme.token = t) :
    (build lexeme.span).Faithful source := by
  cases t with
  | keyword w => cases w <;> simp only [atom?, Option.some.injEq, reduceCtorEq] at found <;> subst found <;> trivial
  | number value =>
    cases found
    exact ⟨lexeme, listed, stands, rfl, isToken⟩
  | string value =>
    cases found
    exact ⟨lexeme, listed, stands, rfl, isToken⟩
  | name spelling =>
    cases found
    exact ⟨lexeme, listed, stands, rfl, isToken⟩
  | _ => cases found

theorem atom_answers : Answers source n false (Eats (Faithful source)) atom atom := by
  refine Answers.spannedAt (Q := fun _ taken => 1 ≤ taken)
    (answers_accept rfl (Nat.le_succ _) (fun _ build _ => answers_pure (by omega)) answers_fail) ?_
  intro c build after taken of short run _ nonempty _ positive
  simp only [bind_gives, Option.exists, accept_gives_none, accept_gives_some, fail_gives, pure_gives, and_false,
    exists_false, false_or] at run
  obtain ⟨_, _, ⟨t, ⟨newline, span, rest, atRest, rfl⟩, found⟩, rfl, rfl⟩ := run
  obtain ⟨stop, lexemes⟩ := c
  obtain rfl : lexemes = _ := atRest
  obtain ⟨stands, listed, -⟩ := of.next (.inr nonempty)
  exact ⟨faithful_atom found stands listed rfl, positive⟩

/-- The closing bracket, a comma, or an element with what stands behind it. -/
def arrayRound (g : Grammar) : Parser (List (Node .assign) × Bool) := do
  if ← take (.punct .rbracket) then return ([], false)
  if ← take (.punct .comma) then return ([], true)
  let element ← g.assign true
  if ← take (.punct .comma) then return ([element], true)
  expect (.punct .rbracket)
  return ([element], false)

theorem arrayLit_eq (g : Grammar) : g.arrayLit = spanned (do
    require (.punct .lbracket)
    let elements ← loop g.arrayRound
    return fun span => .arrayLit span (.ofList elements)) := rfl

theorem Answering.arrayRound (answering : Answering source n n g g') :
    Answers source n false (GoesOn (Faithful source)) g.arrayRound g'.arrayRound := by
  refine answers_take (Nat.le_succ _) (answers_pure ⟨List.forall_mem_nil _, by rintro ⟨⟩⟩) ?_
  refine answers_take (Nat.le_succ _) (answers_pure ⟨List.forall_mem_nil _, fun _ => by omega⟩) ?_
  refine (answering.assign true).quiet.bind ?_
  rintro element taken ⟨good, positive⟩
  have found := List.forall_mem_singleton.mpr good
  refine answers_take (Nat.le_succ _) (answers_pure ⟨found, fun _ => by omega⟩) ?_
  exact answers_expect (answers_pure ⟨found, by rintro ⟨⟩⟩)

theorem Answering.arrayLit (answering : Answering source n n g g') :
    Answers source (n + 1) false (Eats (Faithful source)) g.arrayLit g'.arrayLit := by
  rw [arrayLit_eq, arrayLit_eq]
  refine Answers.spanned (answers_require (answering.arrayRound.loop.bind fun list taken good => ?_))
  exact answers_pure fun span => ⟨⟨trivial, all_ofList.mpr good⟩, by omega⟩

theorem Answering.paren (answering : Answering source n n g g') :
    Answers source (n + 1) true (Eats (Faithful source)) g.paren g'.paren := by
  refine Answers.spanned (answers_take (Nat.le_refl _) ?_ answers_failMissing)
  refine answering.sequence.bind ?_
  rintro expr taken ⟨good, -⟩
  exact answers_expect (answers_pure fun span => ⟨⟨trivial, good⟩, by omega⟩)

theorem Answering.primary (answering : Answering source n n g g') :
    Answers source (n + 1) true (Eats (Faithful source)) g.primary g'.primary :=
  atom_answers.either (answering.arrayLit.either answering.paren)

/-! Accesses and calls -/

theorem Answering.arguments (answering : Answering source n n g g') :
    Answers source (n + 1) false (Eats (Faithful source)) g.arguments g'.arguments := by
  refine Answers.spanned (answers_require (answers_take (Nat.le_succ _) ?_ ?_))
  · exact answers_pure fun span => ⟨⟨trivial, trivial⟩, by omega⟩
  · refine (answering.assign true).quiet.separated.bind ?_
    rintro list taken ⟨good, -⟩
    exact answers_expect (answers_pure fun span => ⟨⟨trivial, all_ofList.mpr good⟩, by omega⟩)

theorem Answering.index {calls : Bool} (answering : Answering source n n g g') :
    Answers source (n + 1) false (Eats (Faithful source)) (g.index : Parser (Node (.modifier calls))) g'.index := by
  refine Answers.spanned (answers_require (answering.sequence.quiet.bind ?_))
  rintro expr taken ⟨good, -⟩
  exact answers_expect (answers_pure fun span => ⟨⟨trivial, good⟩, by omega⟩)

/-- Behind the point that a number begins with stands a digit. -/
theorem explains_point {value : Number} {lexeme : Lexeme} (stands : lexeme.At source)
    (isNumber : lexeme.token = .number value) (point : value.raw.head? = some 0x2E) :
    Failure.Explains source ⟨lexeme.span.start + 1, [.propertyName]⟩ := by
  have start := stands.start_lt
  have inside := stands.stop_le
  have spelled := stands.spelledBy
  rw [isNumber] at spelled
  obtain ⟨text, found⟩ := spelled
  rw [text] at found
  obtain ⟨first, tail, raw, pointed⟩ := (Number.read?_eq_some found).1.exists_head
  rw [raw, List.head?_cons, Option.some.injEq] at point
  subst point
  rcases pointed with noDigit | ⟨-, digit, behind, rfl, isDigit⟩
  · cases noDigit
  have atStart : source.drop lexeme.span.start = 0x2E :: digit :: behind ++
      (source.drop lexeme.span.start).drop (lexeme.span.stop - lexeme.span.start) := by
    rw [← raw, ← text]
    exact (List.take_append_drop _ _).symm
  have behindPoint := congrArg List.tail atStart
  rw [List.tail_drop] at behindPoint
  refine ⟨by simp only; omega, ?_, List.cons_ne_nil _ _, by simp⟩
  change Trivia.piece? (source.drop (lexeme.span.start + 1)) = none
  rw [behindPoint]
  exact (Token.read_digit isDigit _).1

theorem point_answers : Answers source n false (fun _ taken => taken = 1) point point := by
  intro c of short
  obtain ⟨stop, _ | ⟨lexeme, rest⟩⟩ := c
  · exact absurd rfl of.ne_nil
  have plain : Answers source n false (fun _ taken => taken = 1) (require (.punct .dot)) (require (.punct .dot)) :=
    answers_take (Nat.le_succ n) (answers_pure rfl) answers_fail
  obtain ⟨token, newline, span⟩ := lexeme
  unfold point
  split
  · rename_i value _ _ _ same
    cases same
    split
    · rename_i pointed
      refine ⟨rfl, ?_, by rintro ⟨⟩, by rintro _ _ ⟨⟩⟩
      rintro _ ⟨⟩
      exact explains_point (of.next (.inl (by rintro ⟨⟩))).1 rfl pointed
    · exact ⟨rfl, by rintro _ ⟨⟩, by rintro ⟨⟩, by rintro _ _ ⟨⟩⟩
  · exact plain _ of short

theorem property_answers {calls : Bool} :
    Answers source n false (Eats (Faithful source)) (property : Parser (Node (.modifier calls))) property := by
  refine Answers.spanned (point_answers.bind ?_)
  rintro _ _ rfl
  refine answers_accept rfl (Nat.le_succ _) (fun _ name _ => ?_) answers_failMissing
  exact answers_pure fun span => ⟨trivial, by omega⟩

theorem Answering.modifier (answering : Answering source n n g g') (calls : Bool) :
    Answers source (n + 1) false (Eats (Faithful source)) (g.modifier calls) (g'.modifier calls) := by
  cases calls with
  | false => exact answering.index.either property_answers
  | true =>
    have call : Answers source (n + 1) false (Eats (Faithful source)) (Tree.ofArguments <$> g.arguments)
        (Tree.ofArguments <$> g'.arguments) := answering.arguments.map fun _ _ eats => eats
    exact call.either (answering.index.either property_answers)

theorem Answering.member (answering : Answering source n n g g') :
    Answers source (n + 1) true (Eats (Faithful source)) g.member g'.member := by
  refine Answers.spanned ((answering.functionExpr.either answering.primary).bind ?_)
  rintro target taken ⟨good, positive⟩
  refine (answering.modifier false).many.bind fun list more goodList => answers_pure fun span => ?_
  exact ⟨⟨trivial, good, all_ofList.mpr goodList⟩, by omega⟩

/-- One more `new`, or the last round if there is none. -/
def newRound : Parser (List Nat × Bool) := do
  let start ← offset
  if ← take (.word .kwNew) then return ([start], true)
  return ([], false)

theorem news_eq : news = loop newRound := rfl

theorem newRound_answers : Answers source n told (GoesOn fun _ => True) newRound newRound := by
  refine answers_offset fun start => answers_take (Nat.le_succ _) (answers_pure ?_) (answers_pure ?_)
  · exact ⟨fun _ _ => trivial, fun _ => by omega⟩
  · exact ⟨fun _ _ => trivial, by rintro ⟨⟩⟩

theorem news_answers : Answers source n told (fun _ _ => True) news news := by
  rw [news_eq]
  exact newRound_answers.loop.weaken (fun _ _ _ => trivial) id

theorem Answering.pairNews (answering : Answering source n n g g') (starts : List Nat) {target : Node .member}
    (good : target.Faithful source) : Answers source (n + 1) told (fun found _ => found.2.Faithful source)
      (g.pairNews starts target) (g'.pairNews starts target) := by
  induction starts generalizing target with
  | nil => exact answers_pure good
  | cons start outer ih =>
    refine Answers.bind (R := fun args _ => ∀ present ∈ args, present.Faithful source) ?_ ?_
    · exact answering.arguments.optional (by rintro _ _ ⟨goodArgs, -⟩ _ ⟨⟩; exact goodArgs) (by rintro _ ⟨⟩)
    · rintro (_ | args) taken goodArgs
      · exact answers_pure good
      · refine answers_reached fun stop => (answering.modifier false).many.bind fun list more goodList => ?_
        have instantiation : (Tree.instantiation ⟨start, stop⟩ target args).Faithful source :=
          ⟨trivial, good, goodArgs args rfl⟩
        cases list with
        | nil => exact ih instantiation
        | cons first others =>
          refine answers_reached fun last => ih ?_
          exact ⟨trivial, instantiation, all_ofList.mpr goodList⟩

theorem Answering.lhs (answering : Answering source n n g g') :
    Answers source (n + 1) true (Eats (Faithful source)) g.lhs g'.lhs := by
  refine Answers.spanned (news_answers.bind fun starts before _ => answering.member.bind ?_)
  rintro first taken ⟨goodFirst, positive⟩
  refine (answering.pairNews starts.reverse goodFirst).bind ?_
  rintro ⟨unpaired, target⟩ more good
  have plain {count : Nat} {span : Span} : (Tree.newExpr span count target).Faithful source := ⟨trivial, good⟩
  cases unpaired with
  | cons start rest => exact answers_pure fun span => ⟨plain, by omega⟩
  | nil =>
    refine Answers.bind (R := fun args _ => ∀ present ∈ args, present.Faithful source) ?_ ?_
    · exact answering.arguments.optional (by rintro _ _ ⟨goodArgs, -⟩ _ ⟨⟩; exact goodArgs) (by rintro _ ⟨⟩)
    · rintro (_ | args) further goodArgs
      · exact answers_pure fun span => ⟨plain, by omega⟩
      · refine (answering.modifier true).many.bind fun list last goodList => answers_pure fun span => ?_
        exact ⟨⟨trivial, good, goodArgs args rfl, all_ofList.mpr goodList⟩, by omega⟩

theorem sequence_span {c after : Cursor} {node : Node .sequence} (run : (g.sequence allowIn).Gives c node after) :
    node.span = ⟨c.offset, after.stop⟩ := by
  obtain ⟨build, inner, rfl⟩ := spanned_gives.mp run
  simp only [bind_gives, pure_gives] at inner
  obtain ⟨list, _, -, rfl, -⟩ := inner
  rfl

theorem lhs_span {c after : Cursor} {node : Node .lhs} (run : g.lhs.Gives c node after) :
    node.span = ⟨c.offset, after.stop⟩ := by
  obtain ⟨build, inner, rfl⟩ := spanned_gives.mp run
  simp only [bind_gives] at inner
  obtain ⟨starts, _, -, first, _, -, ⟨unpaired, target⟩, _, -, rest⟩ := inner
  cases unpaired with
  | cons start others =>
    obtain ⟨rfl, -⟩ := pure_gives.mp rest
    rfl
  | nil =>
    obtain ⟨args, _, -, rest⟩ := bind_gives.mp rest
    cases args with
    | none =>
      obtain ⟨rfl, -⟩ := pure_gives.mp rest
      rfl
    | some args =>
      obtain ⟨modifiers, _, -, last⟩ := bind_gives.mp rest
      obtain ⟨rfl, -⟩ := pure_gives.mp last
      rfl

/-! Operators -/

/-- The operator of an update stands on the line where its operand ends. -/
theorem Answering.update (answering : Answering source n n g g') :
    Answers source (n + 1) true (Eats (Faithful source)) g.update g'.update := by
  refine Answers.spannedAt (Q := fun _ taken => 1 ≤ taken) (answering.lhs.bind ?_) ?_
  · rintro operand taken ⟨-, positive⟩
    refine answers_newlineAhead fun breaks => ?_
    cases breaks with
    | true => exact answers_pure positive
    | false =>
      exact answers_accept rfl (Nat.le_succ _) (fun _ op _ => answers_pure (by omega)) (answers_pure positive)
  · intro c build after taken of short run _ nonempty _ positive
    obtain ⟨operand, between, operandRun, rest⟩ := bind_gives.mp run
    obtain ⟨leads, left, few, length, good, some⟩ := (answering.lhs c of short).2.leads operand between operandRun
    obtain ⟨breaks, _, asked, rest⟩ := bind_gives.mp rest
    obtain ⟨isBreak, rfl⟩ := newlineAhead_gives.mp asked
    cases breaks with
    | true =>
      obtain ⟨rfl, rfl⟩ := pure_gives.mp rest
      exact ⟨⟨trivial, good⟩, positive⟩
    | false =>
      obtain ⟨op, _, accepted, last⟩ := bind_gives.mp rest
      obtain ⟨rfl, rfl⟩ := pure_gives.mp last
      cases op with
      | none => exact ⟨⟨trivial, good⟩, positive⟩
      | some op =>
        obtain ⟨t, ⟨newline, span, others, next, rfl⟩, found⟩ := accept_gives_some.mp accepted
        obtain ⟨before, suffix, stop⟩ := of.exists_before leads left (by omega)
        rw [next] at suffix
        have quiet : newline = false := by simpa [Cursor.breaks, next] using isBreak.symm
        exact ⟨⟨⟨before, ⟨t, newline, span⟩, .of_suffix suffix quiet,
          stop.trans (congrArg Span.stop (lhs_span operandRun)).symm, rfl, (UpdateOp.token_of_ofToken? found).symm⟩,
          good⟩, positive⟩

theorem Answering.unary (answering : Answering source n n g g') :
    Answers source (n + 1) true (Eats (Faithful source)) g.unary g'.unary := by
  refine Answers.spanned ((answers_manyTokens rfl).bind fun ops before _ => answering.update.bind ?_)
  rintro operand taken ⟨good, positive⟩
  exact answers_pure fun span => ⟨⟨trivial, good⟩, by omega⟩

theorem operation_answers {tier : Tier} {operand operand' : Parser (Node tier.operand)}
    (answers : Answers source n true (Eats (Faithful source)) operand operand') :
    Answers source n false (Eats (Faithful source)) (operation tier allowIn operand)
      (operation tier allowIn operand') := by
  refine answers_offset fun start => answers_accept rfl (Nat.le_succ _) (fun _ op _ => ?_) answers_fail
  refine answers.quiet.bind ?_
  rintro right more ⟨goodRight, -⟩
  exact answers_pure ⟨goodRight, by omega⟩

theorem level_answers {tier : Tier} {operand operand' : Parser (Node tier.operand)}
    (answers : Answers source n true (Eats (Faithful source)) operand operand') :
    Answers source n true (Eats (Faithful source)) (level tier allowIn operand) (level tier allowIn operand') := by
  refine Answers.spanned (answers.bind ?_)
  rintro head taken ⟨good, positive⟩
  refine (operation_answers answers).many.bind fun list more goodList => answers_pure fun span => ?_
  exact ⟨⟨trivial, good, all_ofList.mpr goodList⟩, by omega⟩

/-- What stands between the operators of a tier. -/
def operandOf (g : Grammar) (allowIn : Bool) : (tier : Tier) → Parser (Node tier.operand)
  | .logicalOr => g.logicalAnd allowIn
  | .logicalAnd => g.bitOr allowIn
  | .bitOr => g.bitXor allowIn
  | .bitXor => g.bitAnd allowIn
  | .bitAnd => g.equality allowIn
  | .equality => g.relational allowIn
  | .relational => g.shift allowIn
  | .shift => g.additive allowIn
  | .additive => g.multiplicative allowIn
  | .multiplicative => g.unary

theorem Answering.operandOf (answering : Answering source n n g g') : (tier : Tier) →
    Answers source (n + 1) true (Eats (Faithful source)) (g.operandOf allowIn tier) (g'.operandOf allowIn tier)
  | .logicalOr => level_answers (answering.operandOf .logicalAnd)
  | .logicalAnd => level_answers (answering.operandOf .bitOr)
  | .bitOr => level_answers (answering.operandOf .bitXor)
  | .bitXor => level_answers (answering.operandOf .bitAnd)
  | .bitAnd => level_answers (answering.operandOf .equality)
  | .equality => level_answers (answering.operandOf .relational)
  | .relational => level_answers (answering.operandOf .shift)
  | .shift => level_answers (answering.operandOf .additive)
  | .additive => level_answers (answering.operandOf .multiplicative)
  | .multiplicative => answering.unary
termination_by tier => 9 - tier.ctorIdx
decreasing_by all_goals decide

theorem Answering.logicalOr (answering : Answering source n n g g') :
    Answers source (n + 1) true (Eats (Faithful source)) (g.logicalOr allowIn) (g'.logicalOr allowIn) :=
  level_answers (answering.operandOf .logicalOr)

theorem Answering.cond (answering : Answering source n n g g') :
    Answers source (n + 1) true (Eats (Faithful source)) (g.cond allowIn) (g'.cond allowIn) := by
  refine Answers.spanned (answering.logicalOr.bind ?_)
  rintro test taken ⟨goodTest, positive⟩
  refine answers_take (Nat.le_refl _) ((answering.assign true).bind ?_) (answers_pure fun span => ?_)
  · rintro yes more ⟨goodYes, -⟩
    refine answers_expect ((answering.assign allowIn).bind ?_)
    rintro no further ⟨goodNo, -⟩
    exact answers_pure fun span => ⟨⟨trivial, goodTest, goodYes, goodNo⟩, by omega⟩
  · exact ⟨⟨trivial, goodTest⟩, positive⟩

theorem Answering.assignExpr (answering : Answering source n n g g') :
    Answers source (n + 1) true (Eats (Faithful source)) (g.assignExpr allowIn) (g'.assignExpr allowIn) := by
  refine Answers.spanned (answering.cond.bind ?_)
  rintro value taken ⟨good, positive⟩
  have plain (span : Span) : Eats (Faithful source) (Tree.assign span .nil value) (taken + 0) :=
    ⟨⟨trivial, trivial, good⟩, positive⟩
  cases bare : value.bareLhs? with
  | none => exact answers_pure plain
  | some lhs =>
    refine answers_accept rfl (Nat.le_refl _) (fun _ op _ => (answering.assign allowIn).bind ?_) (answers_pure plain)
    rintro rest more ⟨goodRest, -⟩
    exact answers_pure fun span => ⟨faithful_addTarget ((bareLhs?_good bare).2 good) goodRest, by omega⟩

end Grammar

end EcmaFold
