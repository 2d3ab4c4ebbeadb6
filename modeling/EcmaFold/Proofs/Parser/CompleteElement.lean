import EcmaFold.Proofs.Parser.CompleteStatement

/-!
Statements that hold lists of statements, and the grammar as a whole: at a depth of as many levels as there are
marks, it reads back every proper assignment, statement and source element.
-/

namespace EcmaFold

open EcmaFold.Tree EcmaFold.Parser

namespace Grammar

/-- The marks begin with what ends a list of statements. -/
def EndsList (marks : List Mark) : Prop :=
  ∃ t newline more, marks = (t, newline) :: more ∧
    (t = .punct .rbrace ∨ t = .keyword .kwCase ∨ t = .keyword .kwDefault)

theorem EndsList.noTail {marks : List Mark} (ends : EndsList marks) : NoTail marks := by
  obtain ⟨t, newline, more, rfl, rfl | rfl | rfl⟩ := ends <;> simp [NoTail]

theorem EndsList.not_startsStatement {marks : List Mark} (ends : EndsList marks) :
    ∀ mark ∈ marks.head?, mark.1.startsStatement = false := by
  obtain ⟨t, newline, more, rfl, rfl | rfl | rfl⟩ := ends <;> (rintro mark ⟨⟩; rfl)

section Elements

variable {m n : Nat} {g : Grammar} {c : Cursor} {rest : List Mark} {s : Span}

theorem Complete.statements (complete : Complete m n g) {items : List (Node .statement)}
    (covers : Covers (ofList items).yield c.marks rest) (short : c.marks.length ≤ n)
    (proper : (ofList items).All Proper) (ends : EndsList rest) :
    Parses (many g.statement) c rest (List.Forall₂ Same items) := by
  rw [yield_ofList] at covers
  have proper := all_ofList.mp proper
  refine parses_many (F := NoTail) covers short ?_ ?_ ends.noTail ?_
  · intro t member c between short covers follow
    exact complete.statement t c between covers short (proper t member) (follow.mayPrecede t)
  · intro t member marks between covers
    obtain ⟨first, newline, more, rfl, starts, shorter, -⟩ := covers.starts (proper t member) Kind.noConfusion
    exact ⟨by rw [List.length_cons]; omega, noTail_of_startsStatement starts⟩
  · rintro c rfl
    exact complete.stuckStatement c (Cursor.forall_next? ends.not_startsStatement)

/-- A list of statements ends where a case begins. -/
theorem EndsList.of_cases {items : List (Node .caseClause)} {marks : List Mark}
    (covers : Covers (ofList items).yield marks rest) (ends : EndsList rest) : EndsList marks := by
  rw [yield_ofList] at covers
  cases items with
  | nil => exact (show marks = rest from covers) ▸ ends
  | cons item items =>
    obtain ⟨_, first, _⟩ := covers.of_append
    cases item with
    | caseClause s value body =>
      obtain ⟨newline, more, start, _⟩ := first.of_single rfl
      exact ⟨_, newline, more, start, .inr (.inl rfl)⟩

/-- The cases up to a default clause or the closing brace. -/
theorem Complete.caseClauses (complete : Complete n n g) {items : List (Node .caseClause)} {c : Cursor}
    (covers : Covers (ofList items).yield c.marks rest) (short : c.marks.length ≤ n)
    (proper : (ofList items).All Proper) (ends : EndsList rest)
    (noCase : ∀ mark ∈ rest.head?, mark.1 ≠ .keyword .kwCase) :
    Parses g.caseClauses c rest (List.Forall₂ Same items) := by
  induction items generalizing c with
  | nil =>
    refine Parses.last (parses_offset fun start => parses_take_no ?_ (parses_pure covers ⟨rfl, .nil⟩))
    rw [show c.marks = rest from covers]
    exact fun mark next => Symbol.not_isSpelled_word.mpr (noCase mark next)
  | cons item items ih =>
    rw [← List.append_nil (ofList (item :: items)).yield] at covers
    obtain ⟨between, first, others⟩ := covers.of_cons
    rw [List.append_nil] at others
    have endsItem := EndsList.of_cases others ends
    cases item with
    | caseClause s value body =>
      obtain ⟨statements, rfl⟩ := exists_ofList body
      obtain ⟨_, more, start, behind⟩ := first.of_single rfl
      obtain ⟨_, inside, _, _, rfl, inBody⟩ := behind.of_append
      have shorter := inside.length_le
      have shorter' := inBody.length_le
      rw [start, List.length_cons] at short
      rw [List.length_cons] at shorter
      refine Parses.again (M := between)
        (P := fun found => ∃ t, found = [t] ∧ Same (Tree.caseClause s value (ofList statements)) t) ?_ ?_ ?_
      · refine parses_offset fun start' => parses_take start rfl fun after marks => ?_
        subst marks
        refine (complete.expression inside (by omega) proper.1.2.1 rfl).bind fun value' after marks sameValue => ?_
        refine parses_expect marks rfl fun after marks => ?_
        subst marks
        refine (complete.statements inBody (by omega) proper.1.2.2 endsItem).bind fun body' after marks sameBody => ?_
        refine parses_reached fun stop => parses_pure marks ⟨rfl, _, rfl, ?_⟩
        exact congrArg₂ (Tree.caseClause .zero) sameValue (Same.ofList sameBody)
      · rw [start, List.length_cons]
        omega
      · rintro _ after rfl ⟨t, rfl, same⟩
        exact (ih others (by omega) proper.2).weaken fun ts all => .cons same all

theorem Complete.defaultClause (complete : Complete n n g) {t : Node .defaultClause}
    (covers : Covers t.yield c.marks rest) (short : c.marks.length ≤ n) (proper : t.All Proper)
    (ends : EndsList rest) : Parses g.defaultClause c rest (Same t) := by
  cases t with
  | defaultClause s body =>
    obtain ⟨items, rfl⟩ := exists_ofList body
    obtain ⟨_, _, start, _, _, rfl, inside⟩ := covers.of_single rfl
    rw [start, List.length_cons, List.length_cons] at short
    refine Parses.spanned (parses_require start rfl fun after marks => parses_expect marks rfl fun after marks => ?_)
    subst marks
    refine (complete.statements inside (by omega) proper.2 ends).bind fun body' after marks same => ?_
    exact parses_pure marks fun span => congrArg (Tree.defaultClause .zero) (Same.ofList same)

/-- The default clause and the cases behind it, up to the closing brace. -/
theorem Complete.fallback (complete : Complete n n g) {clause : Tree (.optional .defaultClause)}
    {items : List (Node .caseClause)} {newline : Bool}
    (covers : Covers (clause.yield ++ (ofList items).yield) c.marks ((.punct .rbrace, newline) :: rest))
    (short : c.marks.length ≤ n) (properClause : clause.All Proper) (properItems : (ofList items).All Proper)
    (paired : clause.isAbsent = true → (ofList items).isNil = true) :
    Parses g.fallback c ((.punct .rbrace, newline) :: rest) fun found =>
      Same clause found.1 ∧ List.Forall₂ Same items found.2 := by
  have ends : EndsList ((.punct .rbrace, newline) :: rest) := ⟨_, _, _, rfl, .inl rfl⟩
  cases clause with
  | absent =>
    cases items with
    | cons item items => cases paired rfl
    | nil =>
      have marks : c.marks = _ := covers
      refine Parses.absent ?_ (parses_pure marks ⟨rfl, .nil⟩)
      refine spanned_fails.mpr (bind_fails.mpr (.inl (require_fails.mpr (Cursor.forall_next? ?_))))
      rw [marks]
      rintro mark ⟨⟩
      rfl
  | present clause =>
    obtain ⟨between, first, others⟩ := covers.of_append
    have shorter := first.length_le
    have endsClause := EndsList.of_cases others ends
    refine Parses.present (complete.defaultClause first short properClause endsClause) ?_
    rintro clause' after rfl sameClause
    refine (complete.caseClauses others (by omega) properItems ends (by simp)).bind ?_
    exact fun trailing last marks same => parses_pure marks ⟨congrArg Tree.present sameClause, same⟩

theorem Complete.switchStmt (complete : Complete n n g) {tag : Node .sequence} {cases : Tree (.list .caseClause)}
    {clause : Tree (.optional .defaultClause)} {trailing : Tree (.list .caseClause)}
    (covers : Covers (Tree.switchStmt s tag cases clause trailing).yield c.marks rest)
    (short : c.marks.length ≤ n + 1) (proper : (Tree.switchStmt s tag cases clause trailing).All Proper) :
    Parses g.switchStmt c rest (Placed (Tree.switchStmt s tag cases clause trailing)) := by
  obtain ⟨paired, properTag, properCases, properClause, properTrailing⟩ := proper
  obtain ⟨cases, rfl⟩ := exists_ofList cases
  obtain ⟨trailing, rfl⟩ := exists_ofList trailing
  obtain ⟨_, _, _, start, head, _, _, rfl, covers⟩ := covers_head (covers.of_single rfl)
  obtain ⟨between, first, covers⟩ := covers.of_append
  rw [← List.append_assoc] at covers
  obtain ⟨_, second, _, _, rfl, rfl⟩ := covers.of_append
  have shorter := head.length_le
  have shorter' := first.length_le
  rw [start, List.length_cons] at short
  rw [List.length_cons] at shorter
  have ends : EndsList between ∧ ∀ mark ∈ between.head?, mark.1 ≠ .keyword .kwCase := by
    cases clause with
    | absent =>
      cases trailing with
      | cons _ _ => cases paired rfl
      | nil =>
        cases second
        exact ⟨⟨_, _, _, rfl, .inl rfl⟩, by simp⟩
    | present clause =>
      cases clause with
      | defaultClause s body =>
        obtain ⟨_, opening, _⟩ := second.of_append
        obtain ⟨newline, more, rfl, _⟩ := (show Covers (Tree.defaultClause s body).yield _ _ from opening).of_single rfl
        exact ⟨⟨_, _, _, rfl, .inr (.inr rfl)⟩, by simp⟩
  refine parses_require start rfl fun after marks => ?_
  subst marks
  refine (complete.headExpr head (by omega) properTag).bind fun tag' after marks sameTag => ?_
  refine parses_expect marks rfl fun after marks => ?_
  subst marks
  refine (complete.caseClauses first (by omega) properCases ends.1 ends.2).bind ?_
  rintro cases' after rfl sameCases
  refine (complete.fallback second (by omega) properClause properTrailing paired).bind ?_
  rintro ⟨clause', trailing'⟩ after marks ⟨sameClause, sameTrailing⟩
  refine parses_expect marks rfl fun after marks => parses_pure marks fun span => ?_
  have sameCases := Same.ofList sameCases
  have sameTrailing := Same.ofList sameTrailing
  simp only [Same, erase] at sameTag sameCases sameClause sameTrailing ⊢
  rw [sameTag, sameCases, sameClause, sameTrailing]

theorem Complete.block (complete : Complete n n g) {t : Node .block} (covers : Covers t.yield c.marks rest)
    (short : c.marks.length ≤ n + 1) (proper : t.All Proper) : Parses g.block c rest (Same t) := by
  cases t with
  | block s list =>
    obtain ⟨items, rfl⟩ := exists_ofList list
    obtain ⟨_, _, start, covers⟩ := covers.of_single rfl
    obtain ⟨_, inside, _, _, rfl, rfl⟩ := covers.of_append
    rw [start, List.length_cons] at short
    refine Parses.spanned (parses_expect start rfl fun after marks => ?_)
    subst marks
    refine (complete.statements inside (by omega) proper.2 ⟨_, _, _, rfl, .inl rfl⟩).bind ?_
    intro list after marks same
    refine parses_expect marks rfl fun after marks => parses_pure marks fun span => ?_
    exact congrArg (Tree.block .zero) (Same.ofList same)

theorem catchParam_parses {param : Bytes}
    (covers : Covers [.punct .lparen, .name param, .punct .rparen] c.marks rest) :
    Parses catchParam c rest (param = ·) := by
  obtain ⟨_, _, opening, _, _, rfl, _, _, rfl, rfl⟩ := covers
  refine parses_expect opening rfl fun after marks => (parses_identifier marks).bind ?_
  exact fun name after marks same => parses_expect marks rfl fun after marks => parses_pure marks same

theorem Complete.handler (complete : Complete n n g) {handler : Tree (.optional .catchClause)}
    (covers : Covers handler.yield c.marks rest) (short : c.marks.length ≤ n) (proper : handler.All Proper)
    (noCatch : ∀ mark ∈ rest.head?, mark.1 ≠ .keyword .kwCatch) :
    Parses g.handler c rest fun found => Same handler (ofOption found) := by
  cases handler with
  | absent =>
    refine parses_offset fun start => parses_probe_no ?_ (parses_pure covers rfl)
    rw [show c.marks = rest from covers]
    exact fun mark next => Symbol.not_isSpelled_word.mpr (noCatch mark next)
  | present clause =>
    cases clause with
    | catchClause s param body =>
      obtain ⟨_, _, _, start, head, behind⟩ :=
        covers_head ((show Covers (Tree.catchClause s param body).yield _ _ from covers).of_single rfl)
      have shorter := head.length_le
      rw [start, List.length_cons] at short
      refine parses_offset fun start' => parses_probe start rfl fun after marks => ?_
      subst marks
      refine (catchParam_parses head).bind ?_
      rintro _ after rfl rfl
      refine (complete.block behind (by omega) proper.2).bind fun body' after marks same => ?_
      refine parses_reached fun stop => parses_pure marks ?_
      exact congrArg (fun body => Tree.present (Tree.catchClause .zero param body)) same

theorem Complete.cleanup (complete : Complete n n g) {cleanup : Tree (.optional .block)}
    (covers : Covers (cleanup.slots.flatMap (.word .kwFinally :: ·)) c.marks rest) (short : c.marks.length ≤ n)
    (proper : cleanup.All Proper) (noFinally : ∀ mark ∈ rest.head?, mark.1 ≠ .keyword .kwFinally) :
    Parses g.cleanup c rest fun found => Same cleanup (ofOption found) := by
  cases cleanup with
  | absent =>
    refine parses_probe_no ?_ (parses_pure covers rfl)
    rw [show c.marks = rest from covers]
    exact fun mark next => Symbol.not_isSpelled_word.mpr (noFinally mark next)
  | present body =>
    rw [flatMap_slots_present] at covers
    obtain ⟨_, _, start, inside⟩ := covers
    rw [start, List.length_cons] at short
    refine parses_probe start rfl fun after marks => Parses.map ?_
    subst marks
    exact (complete.block inside (by omega) proper).weaken fun body' same => congrArg Tree.present same

theorem Complete.tryStmt (complete : Complete n n g) {body : Node .block} {handler : Tree (.optional .catchClause)}
    {cleanup : Tree (.optional .block)} (covers : Covers (Tree.tryStmt s body handler cleanup).yield c.marks rest)
    (short : c.marks.length ≤ n + 1) (proper : (Tree.tryStmt s body handler cleanup).All Proper)
    (follow : ∀ mark ∈ rest.head?, mark.1 ≠ .keyword .kwCatch ∧ mark.1 ≠ .keyword .kwFinally) :
    Parses g.tryStmt c rest (Placed (Tree.tryStmt s body handler cleanup)) := by
  obtain ⟨some, properBody, properHandler, properCleanup⟩ := proper
  obtain ⟨_, _, start, covers⟩ := covers.of_single rfl
  obtain ⟨between, first, covers⟩ := covers.of_append
  obtain ⟨between', second, third⟩ := covers.of_append
  have shorter := first.length_le
  have shorter' := second.length_le
  rw [start, List.length_cons] at short
  have noCatch : ∀ mark ∈ between'.head?, mark.1 ≠ .keyword .kwCatch := by
    cases cleanup with
    | absent =>
      cases third
      exact fun mark next => (follow mark next).1
    | present cleanup =>
      rw [flatMap_slots_present] at third
      obtain ⟨_, _, rfl, _⟩ := third
      simp
  refine parses_require start rfl fun after marks => ?_
  subst marks
  refine (complete.block first (by omega) properBody).bind ?_
  rintro body' after rfl sameBody
  refine (complete.handler second (by omega) properHandler noCatch).bind ?_
  rintro handler' after rfl sameHandler
  refine (complete.cleanup third (by omega) properCleanup fun mark next => (follow mark next).2).bind ?_
  intro cleanup' after marks sameCleanup
  have same : Placed (Tree.tryStmt s body handler cleanup)
      fun span => Tree.tryStmt span body' (ofOption handler') (ofOption cleanup') := by
    intro span
    simp only [Same, erase] at sameBody sameHandler sameCleanup ⊢
    rw [sameBody, sameHandler, sameCleanup]
  cases handler' with
  | some _ => exact parses_pure marks same
  | none =>
    cases cleanup' with
    | some _ => exact parses_pure marks same
    | none =>
      -- Neither was read, so neither is in the tree.
      cases handler with
      | present _ => cases sameHandler
      | absent =>
        cases cleanup with
        | present _ => cases sameCleanup
        | absent => rcases some with some | some <;> cases some

theorem Complete.blockStmt (complete : Complete n n g) {t : Node .block} (covers : Covers t.yield c.marks rest)
    (short : c.marks.length ≤ n + 1) (proper : t.All Proper) : Parses g.blockStmt c rest (Same (Tree.ofBlock t)) := by
  refine parses_ahead (b := true) ?_ (Parses.map ?_)
  · cases t with
    | block s list =>
      obtain ⟨_, _, start, _⟩ := covers.of_single rfl
      simp [start]
  · exact (complete.block covers short proper).weaken fun t' same => congrArg Tree.ofBlock same

/-- A statement that a word introduces is read by the form of that word. -/
theorem Complete.statementForm_of_word (complete : Complete m n g) {t : Node .statement} {w : Word} {newline : Bool}
    {more : List Mark} (marks : c.marks = (.keyword w, newline) :: more) (noExpr : w.startsExpression = false)
    (parses : Parses (g.wordForm w) c rest (Placed t)) : Parses g.statementForm c rest (Same t) := by
  have next : c.next? = some (.keyword w) := by
    rw [Cursor.next?_eq_marks, marks]
    rfl
  have stuck : (g.assign true).Fails c := by
    refine complete.stuck true c ?_
    rw [Cursor.NoExpression, next]
    rintro _ ⟨⟩
    exact noExpr
  obtain ⟨built, after, run, marks, same⟩ := parses.spanned
  exact ⟨built, after, g.statementForm_gives_of_word next stuck run, marks, same⟩

/-- In front of a colon, a name is read as an expression, but no semicolon is found behind it. -/
theorem Complete.exprStmt_fails_of_label (complete : Complete m n g) {label : Bytes} {newline newline' : Bool}
    {more : List Mark} (marks : c.marks = (.name label, newline) :: (.punct .colon, newline') :: more)
    (short : c.marks.length ≤ m) (identifier : Name.identifier? label = some label) :
    (spanned g.exprStmt).Fails c := by
  have covers : Covers (Tree.newExpr .zero 0 (.member .zero (.ident .zero label) .nil)).yield c.marks
      ((.punct .colon, newline') :: more) := ⟨newline, _, marks, rfl⟩
  rw [← yield_exprOf] at covers
  have proper : (exprOf (.newExpr .zero 0 (.member .zero (.ident .zero label) .nil))).All Proper :=
    all_exprOf ⟨trivial, nofun, identifier, trivial⟩
  obtain ⟨expr, after, run, marks', _⟩ := complete.expression covers short proper rfl
  have ahead : c.next?.any (Symbol.isSpelled (.word .kwFunction)) = false := by
    rw [Cursor.next?_eq_marks, marks]
    rfl
  have missing : (expect (.punct .semicolon)).Fails after := by
    rw [expect_fails, Cursor.next?_eq_marks, marks']
    rintro _ ⟨⟩
    rfl
  rw [spanned_fails, Grammar.exprStmt, bind_fails]
  refine .inr ⟨false, c, ahead_gives.mpr ⟨ahead.symm, rfl⟩, ?_⟩
  exact bind_fails.mpr (.inr ⟨expr, after, run, bind_fails.mpr (.inl missing)⟩)

/-- A statement is read by its own form: those tried earlier fail at their first token, or a label at its colon. -/
theorem Complete.statementForm (complete : Complete (n + 1) n g) {t : Node .statement}
    (covers : Covers t.yield c.marks rest) (short : c.marks.length ≤ n + 1) (proper : t.All Proper)
    (follow : t.MayPrecede rest) : Parses g.statementForm c rest (Same t) := by
  have inner := complete.mono (Nat.le_succ n) (Nat.le_refl n)
  have noForm : ∀ u, c.next? = some u → ∀ w, u ≠ .keyword w → (spanned (g.wordForm w)).Fails c := by
    intro u next w different
    refine spanned_fails.mpr (g.wordForm_fails ?_)
    rw [next]
    rintro _ ⟨⟩
    exact different
  cases t with
  | exprStmt s expr => exact (complete.exprStmt covers short proper).spanned.left
  | varStmt s list =>
    obtain ⟨_, _, marks, _⟩ := covers.of_single rfl
    exact inner.statementForm_of_word marks rfl (inner.varStmt covers short proper)
  | ifStmt s cond yes no =>
    obtain ⟨_, _, _, marks, _⟩ := covers_head (covers.of_single rfl)
    exact inner.statementForm_of_word marks rfl (inner.ifStmt covers short proper follow)
  | doWhile s body cond =>
    obtain ⟨_, _, marks, _⟩ := covers.of_single rfl
    exact inner.statementForm_of_word marks rfl (inner.doWhile covers short proper)
  | whileStmt s cond body =>
    obtain ⟨_, _, _, marks, _⟩ := covers_head (covers.of_single rfl)
    exact inner.statementForm_of_word marks rfl (inner.whileStmt covers short proper follow)
  | forStmt s init cond post body =>
    obtain ⟨_, _, _, marks, _⟩ := covers_head (covers.of_single rfl)
    exact inner.statementForm_of_word marks rfl (inner.forStmt covers short proper follow)
  | forVar s decls cond post body =>
    obtain ⟨_, _, _, marks, _⟩ := covers_head (covers.of_single rfl)
    exact inner.statementForm_of_word marks rfl (inner.forVar covers short proper follow)
  | forIn s into object body =>
    obtain ⟨_, _, _, marks, _⟩ := covers_head (covers.of_single rfl)
    exact inner.statementForm_of_word marks rfl (inner.forIn covers short proper follow)
  | forInVar s decl object body =>
    obtain ⟨_, _, _, marks, _⟩ := covers_head (covers.of_single rfl)
    exact inner.statementForm_of_word marks rfl (inner.forInVar covers short proper follow)
  | continueStmt s label =>
    have jump := covers.of_single rfl
    have ⟨_, _, marks, _⟩ := jump
    exact inner.statementForm_of_word marks rfl (jump_parses jump fun span => rfl)
  | breakStmt s label =>
    have jump := covers.of_single rfl
    have ⟨_, _, marks, _⟩ := jump
    exact inner.statementForm_of_word marks rfl (jump_parses jump fun span => rfl)
  | returnStmt s value =>
    obtain ⟨_, _, marks, _⟩ := covers.of_single rfl
    exact inner.statementForm_of_word marks rfl (inner.returnStmt covers short proper.2)
  | withStmt s object body =>
    obtain ⟨_, _, _, marks, _⟩ := covers_head (covers.of_single rfl)
    exact inner.statementForm_of_word marks rfl (inner.withStmt covers short proper follow)
  | switchStmt s tag cases clause trailing =>
    obtain ⟨_, _, _, marks, _⟩ := covers_head (covers.of_single rfl)
    exact inner.statementForm_of_word marks rfl (inner.switchStmt covers short proper)
  | throwStmt s value =>
    obtain ⟨_, _, marks, _⟩ := covers.of_single rfl
    exact inner.statementForm_of_word marks rfl (inner.throwStmt covers short proper.2)
  | tryStmt s body handler cleanup =>
    obtain ⟨_, _, marks, _⟩ := covers.of_single rfl
    exact inner.statementForm_of_word marks rfl (inner.tryStmt covers short proper follow.1)
  | debugger s =>
    obtain ⟨_, _, marks, _, _, rfl, rfl⟩ := covers.of_single rfl
    refine inner.statementForm_of_word marks rfl (parses_require marks rfl fun after marks => ?_)
    exact parses_expect marks rfl fun after marks => parses_pure marks fun span => rfl
  | emptyStmt s =>
    obtain ⟨_, _, marks, rfl⟩ := covers.of_single rfl
    have next : c.next? = some (.punct .semicolon) := by rw [Cursor.next?_eq_marks, marks]; rfl
    have noExpr : (spanned g.exprStmt).Fails c := by
      refine spanned_fails.mpr (g.exprStmt_fails (complete.stuck true c ?_))
      rw [Cursor.NoExpression, next]
      rintro _ ⟨⟩
      rfl
    refine Parses.right noExpr (Parses.right (noForm _ next .kwVar nofun) (Parses.left (Parses.spanned ?_)))
    exact parses_require marks rfl fun after marks => parses_pure marks fun span => rfl
  | labeled s label body =>
    obtain ⟨_, _, marks, _, _, rfl, _⟩ := covers.of_single rfl
    have next : c.next? = some (.name label) := by rw [Cursor.next?_eq_marks, marks]; rfl
    have noEmpty : (spanned emptyStmt).Fails c := by
      refine spanned_fails.mpr (emptyStmt_fails ?_)
      rw [next]
      exact nofun
    have noWord := fun w => noForm _ next w nofun
    refine Parses.right (complete.exprStmt_fails_of_label marks short proper.1) <| Parses.right (noWord .kwVar) <|
      Parses.right noEmpty <| Parses.right (noWord .kwIf) <| Parses.right (noWord .kwDo) <|
      Parses.right (noWord .kwWhile) <| Parses.right (noWord .kwFor) <| Parses.right (noWord .kwContinue) <|
      Parses.right (noWord .kwBreak) <| Parses.right (noWord .kwReturn) <| Parses.right (noWord .kwWith) <|
      Parses.left (Parses.spanned ?_)
    exact inner.labeled covers short proper.2 follow
  | ofBlock block =>
    have parses := inner.blockStmt covers short proper
    have next : c.next? = some (.punct .lbrace) := by
      cases block with
      | block s list =>
        obtain ⟨_, _, marks, _⟩ := (show Covers (Tree.block s list).yield _ _ from covers).of_single rfl
        rw [Cursor.next?_eq_marks, marks]
        rfl
    have noExpr : (spanned g.exprStmt).Fails c := by
      refine spanned_fails.mpr (g.exprStmt_fails (complete.stuck true c ?_))
      rw [Cursor.NoExpression, next]
      rintro _ ⟨⟩
      rfl
    have noEmpty : (spanned emptyStmt).Fails c := by
      refine spanned_fails.mpr (emptyStmt_fails ?_)
      rw [next]
      rintro _ ⟨⟩
      exact nofun
    have noLabel : (spanned g.labeled).Fails c := by
      refine spanned_fails.mpr (g.labeled_fails ?_)
      rw [next]
      rintro _ ⟨⟩
      rfl
    have noWord := fun w => noForm _ next w nofun
    exact Parses.right noExpr <| Parses.right (noWord .kwVar) <| Parses.right noEmpty <|
      Parses.right (noWord .kwIf) <| Parses.right (noWord .kwDo) <| Parses.right (noWord .kwWhile) <|
      Parses.right (noWord .kwFor) <| Parses.right (noWord .kwContinue) <| Parses.right (noWord .kwBreak) <|
      Parses.right (noWord .kwReturn) <| Parses.right (noWord .kwWith) <| Parses.right noLabel <|
      Parses.right (noWord .kwSwitch) <| Parses.right (noWord .kwThrow) <| Parses.right (noWord .kwTry) <|
      Parses.right (noWord .kwDebugger) parses

theorem Complete.funcDecl (complete : Complete n n g) {own : Bytes} {params : List Bytes}
    {body : Tree (.list .element)} (covers : Covers (Tree.funcDecl s own params body).yield c.marks rest)
    (short : c.marks.length ≤ n + 1) (proper : body.All Proper) :
    Parses g.funcDecl c rest (Same (Tree.funcDecl s own params body)) := by
  obtain ⟨items, rfl⟩ := exists_ofList body
  obtain ⟨_, _, start, _, _, rfl, covers⟩ := covers.of_single rfl
  rw [start, List.length_cons, List.length_cons] at short
  refine Parses.spanned (parses_require start rfl fun after marks => (parses_identifier marks).bind ?_)
  rintro _ after rfl rfl
  refine complete.function covers (by omega) proper ?_
  exact fun body same span => congrArg (Tree.funcDecl .zero own params) same

/-- A statement does not start with `function`. -/
theorem head_ne_function {t : Node .statement} {marks : List Mark} (covers : Covers t.yield marks rest)
    (proper : t.All Proper) : ∀ mark ∈ marks.head?, mark.1 ≠ .keyword .kwFunction := by
  cases t with
  | exprStmt s expr =>
    obtain ⟨_, first, _⟩ := (covers.of_single rfl).of_append
    obtain ⟨t, newline, more, rfl, -, -, start⟩ := first.starts proper.2 Kind.noConfusion
    rintro mark ⟨⟩ rfl
    rw [tokens_yield] at start
    exact proper.1 start
  | ofBlock block =>
    cases block with
    | block s list =>
      obtain ⟨_, _, rfl, _⟩ := (show Covers (Tree.block s list).yield marks rest from covers).of_single rfl
      simp
  | _ =>
    obtain ⟨_, _, rfl, _⟩ := covers.of_single rfl
    simp

end Elements

/-- What a level of nesting adds: a production takes a token before it goes down, so one more mark is read back. -/
theorem Complete.deepen {n : Nat} {g : Grammar} (complete : Complete n n g) : Complete (n + 1) (n + 1) g.deepen := by
  have forms : Complete (n + 1) n ⟨g.assignExpr, g.statement, g.element⟩ :=
    { stuck := fun _ c => g.assignExpr_fails
      stuckStatement := complete.stuckStatement
      assign := complete.assignExpr
      statement := complete.statement
      element := complete.element }
  exact
    { stuck := fun _ c => g.assignExpr_fails
      stuckStatement := fun c noStart => statementForm_fails _ (g.assignExpr_fails noStart.noExpression) noStart
      assign := complete.assignExpr
      statement := fun t c rest covers short proper follow => forms.statementForm covers short proper follow
      element := by
        intro t c rest covers short proper follow
        cases t with
        | funcDecl s own params body => exact (complete.funcDecl covers short proper.2).left
        | ofStatement t =>
          refine Parses.right ?_ (Parses.map ?_)
          · refine spanned_fails.mpr (bind_fails.mpr (.inl (require_fails.mpr (Cursor.forall_next? ?_))))
            intro mark next
            exact Symbol.not_isSpelled_word.mpr (head_ne_function covers proper mark next)
          · refine (forms.statementForm covers short proper (follow.mayPrecede t)).weaken ?_
            exact fun t' same => congrArg Tree.ofStatement same }

/-- A grammar that may nest as deep as there are marks reads back every proper tree. -/
theorem ofDepth_complete : ∀ {n depth : Nat}, n ≤ depth → Complete n n (ofDepth depth) := by
  intro n
  induction n with
  | zero =>
    intro depth _
    have never : ∀ {kind : Kind} {t : Node kind} {c : Cursor} {rest : List Mark}, Covers t.yield c.marks rest →
        c.marks.length ≤ 0 → t.All Proper → kind ≠ .program → False := by
      intro kind t c rest covers short proper notProgram
      obtain ⟨_, _, _, marks, -⟩ := covers.starts proper notProgram
      rw [marks, List.length_cons] at short
      omega
    exact
      { stuck := fun _ _ => assign_fails
        stuckStatement := fun _ => statement_fails
        assign := fun _ _ _ _ covers short proper _ _ => (never covers short proper Kind.noConfusion).elim
        statement := fun _ _ _ covers short proper _ => (never covers short proper Kind.noConfusion).elim
        element := fun _ _ _ covers short proper _ => (never covers short proper Kind.noConfusion).elim }
  | succ n ih =>
    intro depth deep
    obtain ⟨d, rfl⟩ := Nat.exists_eq_add_of_le' deep
    exact (ih (Nat.le_add_left n d)).deepen

end Grammar

end EcmaFold
