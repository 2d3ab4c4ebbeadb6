import EcmaFold.Proofs.Parser.CompleteExpression

/-!
Every proper statement and source element is read back from marks that its slots cover, and no form that is
tried earlier takes them.
-/

namespace EcmaFold

open EcmaFold.Tree EcmaFold.Parser

namespace Grammar

/-- The statement is the same up to positions wherever it is placed. -/
abbrev Placed (t : Node .statement) (build : Span → Node .statement) : Prop := ∀ span, Same t (build span)

section Statements

variable {m n : Nat} {g : Grammar} {allowIn : Bool} {c : Cursor} {rest : List Mark} {s : Span}

theorem Complete.mono {m' n' : Nat} (complete : Complete m n g) (fewer : m' ≤ m) (fewer' : n' ≤ n) :
    Complete m' n' g where
  stuck := complete.stuck
  stuckStatement := complete.stuckStatement
  assign allowIn t c rest covers short := complete.assign allowIn t c rest covers (Nat.le_trans short fewer)
  statement t c rest covers short := complete.statement t c rest covers (Nat.le_trans short fewer')
  element t c rest covers short := complete.element t c rest covers (Nat.le_trans short fewer')

theorem Complete.exprStmt (complete : Complete m n g) {expr : Node .sequence}
    (covers : Covers (Tree.exprStmt s expr).yield c.marks rest) (short : c.marks.length ≤ m)
    (proper : (Tree.exprStmt s expr).All Proper) : Parses g.exprStmt c rest (Placed (Tree.exprStmt s expr)) := by
  obtain ⟨_, first, _, _, rfl, rfl⟩ := (covers.of_single rfl).of_append
  obtain ⟨t, newline, more, marks, -, -, start⟩ := first.starts proper.2 Kind.noConfusion
  have noFunction : t ≠ .keyword .kwFunction := by
    rintro rfl
    rw [tokens_yield] at start
    exact proper.1 start
  refine parses_ahead (b := false) ?_ ?_
  · simpa [marks] using noFunction
  · refine (complete.expression first short proper.2 rfl).bind fun expr' after marks same => ?_
    refine parses_expect marks rfl fun after marks => parses_pure marks fun span => ?_
    exact congrArg (Tree.exprStmt .zero) same

theorem Complete.declaration (complete : Complete n n g) (allowIn : Bool) :
    Completes n allowIn 2 (g.declaration allowIn) := by
  intro t c rest covers short proper inFree stops
  cases t with
  | declaration s own init =>
    obtain ⟨_, _, named, covers⟩ := covers.of_single rfl
    rw [named, List.length_cons] at short
    refine Parses.spanned ((parses_identifier named).bind ?_)
    rintro _ after rfl rfl
    cases init with
    | absent =>
      cases covers
      refine parses_take_no ?_ (parses_pure rfl fun span => rfl)
      intro mark next
      rw [Symbol.not_isSpelled_punct]
      exact stops.ne (u := .punct .assign) (Nat.le_refl 2) mark next
    | present value =>
      rw [flatMap_slots_present] at covers
      obtain ⟨_, _, assign, covers⟩ := covers
      rw [assign, List.length_cons] at short
      refine parses_take assign rfl fun after marks => ?_
      subst marks
      refine (complete.assign allowIn value after rest covers (by omega) proper.2 inFree stops).bind ?_
      exact fun value' last marks same => parses_pure marks fun span =>
        congrArg (fun value => Tree.declaration .zero own (.present value)) same

theorem Complete.declarations (complete : Complete n n g) (allowIn : Bool) {items : List (Node .declaration)}
    (nonempty : items ≠ []) (covers : Covers (Slot.separated [.punct .comma] (ofList items).slots) c.marks rest)
    (short : c.marks.length ≤ n) (proper : (ofList items).All Proper)
    (inFree : allowIn = false → (ofList items).isInFree = true) (stops : Stops allowIn 1 rest) :
    Parses (separated (g.declaration allowIn)) c rest (List.Forall₂ Same items) := by
  rw [slots_ofList] at covers
  refine parses_separated (F := Stops allowIn 2) covers nonempty short ?_ ?_ (stops.mono (Nat.le_succ 1))
    (stops.ne (Nat.le_refl 1))
  · intro t member c between short covers follow
    exact complete.declaration allowIn t c between covers short (all_ofList.mp proper t member)
      (fun noIn => isInFree_ofList.mp (inFree noIn) t member) follow
  · exact fun newline more => Stops.cons_iff.mpr (Nat.lt_succ_self 1)

theorem Complete.varStmt (complete : Complete n n g) {list : Tree (.list .declaration)}
    (covers : Covers (Tree.varStmt s list).yield c.marks rest) (short : c.marks.length ≤ n + 1)
    (proper : (Tree.varStmt s list).All Proper) : Parses g.varStmt c rest (Placed (Tree.varStmt s list)) := by
  obtain ⟨items, nonempty, rfl⟩ := exists_items proper.1
  obtain ⟨_, _, start, covers⟩ := covers.of_single rfl
  obtain ⟨_, inside, _, _, rfl, rfl⟩ := covers.of_append
  rw [start, List.length_cons] at short
  refine parses_require start rfl fun between marks => ?_
  subst marks
  refine (complete.declarations true nonempty inside (by omega) proper.2 (by simp)
    (Stops.cons_iff.mpr Nat.one_pos)).bind fun list after marks same => ?_
  refine parses_expect marks rfl fun after marks => parses_pure marks fun span => ?_
  exact congrArg (Tree.varStmt .zero) (Same.ofList same)

/-- An expression in parentheses. -/
theorem Complete.headExpr (complete : Complete n n g) {expr : Node .sequence}
    (covers : Covers (.punct .lparen :: (expr.yield ++ [.punct .rparen])) c.marks rest)
    (short : c.marks.length ≤ n) (proper : expr.All Proper) : Parses g.headExpr c rest (Same expr) := by
  obtain ⟨_, _, opening, covers⟩ := covers
  obtain ⟨_, inside, _, _, rfl, rfl⟩ := covers.of_append
  rw [opening, List.length_cons] at short
  refine parses_expect opening rfl fun between marks => ?_
  subst marks
  refine (complete.expression inside (by omega) proper rfl).bind fun expr' after marks same => ?_
  exact parses_expect marks rfl fun after marks => parses_pure marks same

/-- A statement's head and what follows it. -/
theorem covers_head {w : Word} {inside body : List Slot} {marks : List Mark}
    (covers : Covers (Slot.head w inside ++ body) marks rest) :
    ∃ newline more between, marks = (.keyword w, newline) :: more ∧
      Covers (.punct .lparen :: (inside ++ [.punct .rparen])) more between ∧ Covers body between rest := by
  obtain ⟨between, ⟨newline, more, rfl, head⟩, behind⟩ := covers.of_append
  exact ⟨newline, more, between, rfl, head, behind⟩

theorem Complete.ifStmt (complete : Complete n n g) {cond : Node .sequence} {yes : Node .statement}
    {no : Tree (.optional .statement)} (covers : Covers (Tree.ifStmt s cond yes no).yield c.marks rest)
    (short : c.marks.length ≤ n + 1) (proper : (Tree.ifStmt s cond yes no).All Proper)
    (follow : (Tree.ifStmt s cond yes no).MayPrecede rest) :
    Parses g.ifStmt c rest (Placed (Tree.ifStmt s cond yes no)) := by
  obtain ⟨_, _, _, start, head, covers⟩ := covers_head (covers.of_single rfl)
  obtain ⟨between, first, second⟩ := covers.of_append
  have shorter := head.length_le
  have shorter' := first.length_le
  rw [start, List.length_cons] at short
  have followYes : yes.MayPrecede between := by
    cases no with
    | absent =>
      cases second
      exact ⟨follow.1, fun _ => follow.2 rfl⟩
    | present no =>
      rw [flatMap_slots_present] at second
      obtain ⟨_, _, rfl, _⟩ := second
      refine ⟨by simp, fun isOpen => ?_⟩
      rw [proper.1 rfl] at isOpen
      cases isOpen
  refine parses_require start rfl fun after marks => ?_
  subst marks
  refine (complete.headExpr head (by omega) proper.2.1).bind ?_
  rintro cond' after rfl sameCond
  refine (complete.statement yes after between first (by omega) proper.2.2.1 followYes).bind ?_
  rintro yes' after rfl sameYes
  cases no with
  | absent =>
    cases second
    refine Parses.absent ?_ (parses_pure rfl fun span => ?_)
    · refine bind_fails.mpr (.inl (require_fails.mpr (Cursor.forall_next? ?_)))
      simpa using follow.2 rfl
    · exact congrArg₂ (Tree.ifStmt .zero · · .absent) sameCond sameYes
  | present no =>
    rw [flatMap_slots_present] at second
    obtain ⟨_, _, marks, second⟩ := second
    rw [marks, List.length_cons] at shorter'
    refine Parses.present (M := rest) (Q := Same no) ?_ ?_
    · refine parses_require marks rfl fun after marks => ?_
      subst marks
      exact complete.statement no after rest second (by omega) proper.2.2.2 follow
    · intro no' last marks sameNo
      refine parses_pure marks fun span => ?_
      simp only [Same, erase, ofOption] at sameCond sameYes sameNo ⊢
      rw [sameCond, sameYes, sameNo]

theorem Complete.doWhile (complete : Complete n n g) {body : Node .statement} {cond : Node .sequence}
    (covers : Covers (Tree.doWhile s body cond).yield c.marks rest) (short : c.marks.length ≤ n + 1)
    (proper : (Tree.doWhile s body cond).All Proper) :
    Parses g.doWhile c rest (Placed (Tree.doWhile s body cond)) := by
  obtain ⟨_, _, start, covers⟩ := covers.of_single rfl
  obtain ⟨between, first, behind⟩ := covers.of_append
  obtain ⟨_, _, _, rfl, head, _, _, rfl, rfl⟩ := covers_head behind
  have shorter := first.length_le
  rw [start, List.length_cons] at short
  rw [List.length_cons] at shorter
  refine parses_require start rfl fun after marks => ?_
  subst marks
  refine (complete.statement body after _ first (by omega) proper.2.1 ?_).bind ?_
  · exact NoTail.mayPrecede (by simp [NoTail]) body
  · intro body' after marks sameBody
    refine parses_expect marks rfl fun after marks => ?_
    subst marks
    refine (complete.headExpr head (by omega) proper.2.2).bind fun cond' after marks sameCond => ?_
    refine parses_expect marks rfl fun after marks => parses_pure marks fun span => ?_
    exact congrArg₂ (Tree.doWhile .zero) sameBody sameCond

/-- A statement of a word, an expression in parentheses and a body. -/
theorem Complete.headed (complete : Complete n n g) {w : Word} {expr : Node .sequence} {body t : Node .statement}
    {build : Node .sequence → Node .statement → Span → Node .statement}
    (covers : Covers (Slot.head w expr.yield ++ body.yield) c.marks rest) (short : c.marks.length ≤ n + 1)
    (properExpr : expr.All Proper) (properBody : body.All Proper) (follow : body.MayPrecede rest)
    (same : ∀ expr' body', Same expr expr' → Same body body' → Placed t (build expr' body')) :
    Parses (require (.word w) >>= fun _ => g.headExpr >>= fun expr => g.statement >>= fun body =>
      pure (build expr body)) c rest (Placed t) := by
  obtain ⟨_, _, _, start, head, behind⟩ := covers_head covers
  have shorter := head.length_le
  rw [start, List.length_cons] at short
  refine parses_require start (Symbol.isSpelled_word.mpr rfl) fun after marks => ?_
  subst marks
  refine (complete.headExpr head (by omega) properExpr).bind ?_
  rintro expr' after rfl sameExpr
  refine (complete.statement body after rest behind (by omega) properBody follow).bind ?_
  exact fun body' last marks sameBody => parses_pure marks (same expr' body' sameExpr sameBody)

theorem Complete.whileStmt (complete : Complete n n g) {cond : Node .sequence} {body : Node .statement}
    (covers : Covers (Tree.whileStmt s cond body).yield c.marks rest) (short : c.marks.length ≤ n + 1)
    (proper : (Tree.whileStmt s cond body).All Proper) (follow : body.MayPrecede rest) :
    Parses g.whileStmt c rest (Placed (Tree.whileStmt s cond body)) :=
  complete.headed (covers.of_single rfl) short proper.2.1 proper.2.2 follow
    fun _ _ sameCond sameBody _ => congrArg₂ (Tree.whileStmt .zero) sameCond sameBody

theorem Complete.withStmt (complete : Complete n n g) {object : Node .sequence} {body : Node .statement}
    (covers : Covers (Tree.withStmt s object body).yield c.marks rest) (short : c.marks.length ≤ n + 1)
    (proper : (Tree.withStmt s object body).All Proper) (follow : body.MayPrecede rest) :
    Parses g.withStmt c rest (Placed (Tree.withStmt s object body)) :=
  complete.headed (covers.of_single rfl) short proper.2.1 proper.2.2 follow
    fun _ _ sameObject sameBody _ => congrArg₂ (Tree.withStmt .zero) sameObject sameBody

/-- A clause of a loop's head, which is absent only if the punctuator that ends it is next. -/
theorem Complete.clause (complete : Complete n n g) {closing : Punct} {expr : Tree (.optional .sequence)}
    (covers : Covers expr.yield c.marks rest) (short : c.marks.length ≤ n) (proper : expr.All Proper)
    (inFree : allowIn = false → expr.isInFree = true) (stops : Stops allowIn 1 rest)
    (noStart : closing.startsExpression = false)
    (closes : expr.isAbsent = true → ∃ newline more, rest = (.punct closing, newline) :: more) :
    Parses (g.clause allowIn (.punct closing)) c rest (Same expr) := by
  cases expr with
  | absent =>
    cases covers
    obtain ⟨newline, more, marks⟩ := closes rfl
    refine parses_ahead (b := true) ?_ (parses_pure rfl rfl)
    simp [marks]
  | present expr =>
    obtain ⟨t, newline, more, marks, starts, -⟩ := (show Covers expr.yield c.marks rest from covers).starts
      proper Kind.noConfusion
    refine parses_ahead (b := false) ?_ ?_
    · rw [marks, List.head?_cons, Option.any_some, Symbol.not_isSpelled_punct]
      rintro rfl
      exact Bool.noConfusion (starts.symm.trans noStart)
    · refine (complete.sequence allowIn expr c rest covers short proper inFree stops).bind ?_
      exact fun expr' after marks same => parses_pure marks (congrArg Tree.present same)

/-- The condition, the step and the body of a loop. -/
theorem Complete.loopRest (complete : Complete n n g) {cond post : Tree (.optional .sequence)}
    {body : Node .statement} {between : List Mark}
    (head : Covers ((cond.yield ++ .punct .semicolon :: post.yield) ++ [.punct .rparen]) c.marks between)
    (behind : Covers body.yield between rest) (short : c.marks.length ≤ n) (properCond : cond.All Proper)
    (properPost : post.All Proper) (properBody : body.All Proper) (follow : body.MayPrecede rest) :
    Parses g.loopRest c rest fun parts => Same cond parts.1 ∧ Same post parts.2.1 ∧ Same body parts.2.2 := by
  rw [List.append_assoc] at head
  obtain ⟨_, first, _, _, rfl, head⟩ := head.of_append
  obtain ⟨_, second, _, _, rfl, rfl⟩ := head.of_append
  have shorter := first.length_le
  have shorter' := second.length_le
  rw [List.length_cons] at shorter shorter'
  refine (complete.clause first short properCond (by simp) (Stops.cons_iff.mpr Nat.one_pos) rfl
    fun _ => ⟨_, _, rfl⟩).bind fun cond' after marks sameCond => ?_
  refine parses_expect marks rfl fun after marks => ?_
  subst marks
  refine (complete.clause second (by omega) properPost (by simp) (Stops.cons_iff.mpr Nat.one_pos) rfl
    fun _ => ⟨_, _, rfl⟩).bind fun post' after marks samePost => ?_
  refine parses_expect marks rfl fun after marks => ?_
  subst marks
  refine (complete.statement body after rest behind (by omega) properBody follow).bind ?_
  exact fun body' last marks sameBody => parses_pure marks ⟨sameCond, samePost, sameBody⟩

/-- The object and the body of a loop over keys. -/
theorem Complete.keysRest (complete : Complete n n g) {object : Node .sequence} {body : Node .statement}
    {between : List Mark} (head : Covers (object.yield ++ [.punct .rparen]) c.marks between)
    (behind : Covers body.yield between rest) (short : c.marks.length ≤ n) (properObject : object.All Proper)
    (properBody : body.All Proper) (follow : body.MayPrecede rest) :
    Parses g.keysRest c rest fun parts => Same object parts.1 ∧ Same body parts.2 := by
  obtain ⟨_, first, _, _, rfl, rfl⟩ := head.of_append
  have shorter := first.length_le
  rw [List.length_cons] at shorter
  refine (complete.expression first short properObject rfl).bind fun object' after marks sameObject => ?_
  refine parses_expect marks rfl fun after marks => ?_
  subst marks
  refine (complete.statement body after rest behind (by omega) properBody follow).bind ?_
  exact fun body' last marks sameBody => parses_pure marks ⟨sameObject, sameBody⟩

theorem endInit_parses {orIn newline : Bool} {more : List Mark}
    (marks : c.marks = (.punct .semicolon, newline) :: more) : Parses (endInit orIn) c more fun _ => True :=
  parses_probe marks rfl fun _ marks => parses_pure marks trivial

/-- The head of a loop behind its parenthesis, up to the body. -/
theorem covers_loop {inside body : List Slot} {marks : List Mark}
    (covers : Covers (Slot.head .kwFor inside ++ body) marks rest) :
    ∃ newline newline' more between, marks = (.keyword .kwFor, newline) :: (.punct .lparen, newline') :: more ∧
      Covers (inside ++ [.punct .rparen]) more between ∧ Covers body between rest := by
  obtain ⟨newline, _, between, rfl, ⟨newline', more, rfl, head⟩, behind⟩ := covers_head covers
  exact ⟨newline, newline', more, between, rfl, head, behind⟩

theorem Complete.forStmt (complete : Complete n n g) {init cond post : Tree (.optional .sequence)}
    {body : Node .statement} (covers : Covers (Tree.forStmt s init cond post body).yield c.marks rest)
    (short : c.marks.length ≤ n + 1) (proper : (Tree.forStmt s init cond post body).All Proper)
    (follow : body.MayPrecede rest) : Parses g.forStmt c rest (Placed (Tree.forStmt s init cond post body)) := by
  obtain ⟨inFree, properInit, properCond, properPost, properBody⟩ := proper
  obtain ⟨_, _, _, _, start, head, behind⟩ := covers_loop (covers.of_single rfl)
  rw [List.append_assoc] at head
  obtain ⟨_, first, _, _, rfl, head⟩ := head.of_append
  have shorter := first.length_le
  rw [start, List.length_cons, List.length_cons] at short
  rw [List.length_cons] at shorter
  refine parses_require start rfl fun after marks => parses_expect marks rfl fun after marks => ?_
  subst marks
  refine parses_take_no ?_ ?_
  · cases init with
    | absent =>
      rw [show after.marks = _ from first]
      simp
    | present expr =>
      obtain ⟨t, newline, more, marks, starts, -⟩ := (show Covers expr.yield after.marks _ from first).starts
        properInit Kind.noConfusion
      rw [marks]
      rintro mark ⟨⟩
      rw [Symbol.not_isSpelled_word]
      rintro rfl
      cases starts
  · refine (complete.clause first (by omega) properInit (fun _ => inFree) (Stops.cons_iff.mpr Nat.one_pos) rfl
      fun _ => ⟨_, _, rfl⟩).bind fun init' after marks sameInit => ?_
    have loop : ∀ orIn, Parses (endInit orIn >>= fun _ => g.forLoop init') after rest
        (Placed (Tree.forStmt s init cond post body)) := by
      intro orIn
      refine (endInit_parses marks).bind ?_
      rintro _ last rfl _
      refine (complete.loopRest head behind (by omega) properCond properPost properBody follow).bind ?_
      rintro ⟨cond', post', body'⟩ last marks ⟨sameCond, samePost, sameBody⟩
      refine parses_pure marks fun span => ?_
      simp only [Same, erase] at sameInit sameCond samePost sameBody ⊢
      rw [sameInit, sameCond, samePost, sameBody]
    split
    · exact parses_take_no (by simp [marks]) (loop true)
    · exact loop false

theorem Complete.forVar (complete : Complete n n g) {decls : Tree (.list .declaration)}
    {cond post : Tree (.optional .sequence)} {body : Node .statement}
    (covers : Covers (Tree.forVar s decls cond post body).yield c.marks rest)
    (short : c.marks.length ≤ n + 1) (proper : (Tree.forVar s decls cond post body).All Proper)
    (follow : body.MayPrecede rest) : Parses g.forStmt c rest (Placed (Tree.forVar s decls cond post body)) := by
  obtain ⟨⟨filled, inFree⟩, properDecls, properCond, properPost, properBody⟩ := proper
  obtain ⟨items, nonempty, rfl⟩ := exists_items filled
  obtain ⟨_, _, _, _, start, head, behind⟩ := covers_loop (covers.of_single rfl)
  rw [List.cons_append, List.append_assoc] at head
  obtain ⟨_, _, rfl, head⟩ := head
  obtain ⟨_, first, _, _, rfl, head⟩ := head.of_append
  have shorter := first.length_le
  rw [start, List.length_cons, List.length_cons, List.length_cons] at short
  rw [List.length_cons] at shorter
  refine parses_require start rfl fun after marks => parses_expect marks rfl fun after marks => ?_
  refine parses_take marks rfl fun after marks => ?_
  subst marks
  refine (complete.declarations false nonempty first (by omega) properDecls (fun _ => inFree)
    (Stops.cons_iff.mpr Nat.one_pos)).bind fun decls' after marks sameDecls => ?_
  have loop : ∀ orIn, Parses (endInit orIn >>= fun _ => g.forVarLoop decls') after rest
      (Placed (Tree.forVar s (ofList items) cond post body)) := by
    intro orIn
    refine (endInit_parses marks).bind ?_
    rintro _ last rfl _
    refine (complete.loopRest head behind (by omega) properCond properPost properBody follow).bind ?_
    rintro ⟨cond', post', body'⟩ last marks ⟨sameCond, samePost, sameBody⟩
    refine parses_pure marks fun span => ?_
    have sameList : (ofList items).erase = (ofList decls').erase := Same.ofList sameDecls
    simp only [Same, erase] at sameCond samePost sameBody ⊢
    rw [sameList, sameCond, samePost, sameBody]
  split
  · exact parses_take_no (by simp [marks]) (loop true)
  · exact loop false

theorem Complete.forInVar (complete : Complete n n g) {decl : Node .declaration} {object : Node .sequence}
    {body : Node .statement} (covers : Covers (Tree.forInVar s decl object body).yield c.marks rest)
    (short : c.marks.length ≤ n + 1) (proper : (Tree.forInVar s decl object body).All Proper)
    (follow : body.MayPrecede rest) : Parses g.forStmt c rest (Placed (Tree.forInVar s decl object body)) := by
  obtain ⟨inFree, properDecl, properObject, properBody⟩ := proper
  obtain ⟨_, _, _, _, start, head, behind⟩ := covers_loop (covers.of_single rfl)
  rw [List.cons_append, List.append_assoc] at head
  obtain ⟨_, _, rfl, head⟩ := head
  obtain ⟨_, first, newline, more, rfl, head⟩ := head.of_append
  have shorter := first.length_le
  rw [start, List.length_cons, List.length_cons, List.length_cons] at short
  rw [List.length_cons] at shorter
  refine parses_require start rfl fun after marks => parses_expect marks rfl fun after marks => ?_
  refine parses_take marks rfl fun after marks => ?_
  subst marks
  have single : Covers (Slot.separated [.punct .comma] (ofList [decl]).slots) after.marks
      ((.keyword .kwIn, newline) :: more) := by
    rwa [slots_ofList]
  refine (complete.declarations false (List.cons_ne_nil decl []) single (by omega) ⟨properDecl, trivial⟩
    (fun _ => Bool.and_eq_true_iff.mpr ⟨inFree, rfl⟩) (Stops.cons_iff.mpr Nat.one_pos)).bind ?_
  rintro _ after marks (_ | ⟨sameDecl, _ | _⟩)
  refine parses_take marks rfl fun after marks => ?_
  subst marks
  refine (complete.keysRest head behind (by omega) properObject properBody follow).bind ?_
  rintro ⟨object', body'⟩ last marks ⟨sameObject, sameBody⟩
  refine parses_pure marks fun span => ?_
  simp only [Same, erase] at sameDecl sameObject sameBody ⊢
  rw [sameDecl, sameObject, sameBody]

/-- A left-hand side as an expression. -/
@[irreducible] def exprOf (lhs : Node .lhs) : Node .sequence :=
  .sequence .zero (.cons (.assign .zero .nil (.plain .zero (tierOf lhs))) .nil)

theorem forTarget?_exprOf (lhs : Node .lhs) : (exprOf lhs).forTarget? = some lhs := by
  unfold exprOf
  exact bareLhs?_tierOf lhs

theorem yield_exprOf (lhs : Node .lhs) : (exprOf lhs).yield = lhs.yield := by
  have found : initTarget? (.present (exprOf lhs)) = some lhs := forTarget?_exprOf lhs
  exact (initTarget?_good found).1

theorem all_exprOf {lhs : Node .lhs} (proper : lhs.All Proper) : (exprOf lhs).All Proper := by
  unfold exprOf
  exact ⟨rfl, ⟨trivial, trivial, trivial, all_tierOf proper⟩, trivial⟩

theorem isInFree_exprOf (lhs : Node .lhs) : (exprOf lhs).isInFree = true := by
  unfold exprOf
  exact Bool.and_eq_true_iff.mpr ⟨isInFree_tierOf lhs, rfl⟩

/-- A left-hand side is read as an initialisation. -/
theorem Complete.initOf (complete : Complete n n g) {into : Node .lhs} {newline : Bool} {more : List Mark}
    (covers : Covers into.yield c.marks ((.keyword .kwIn, newline) :: more)) (short : c.marks.length ≤ n)
    (proper : into.All Proper) :
    Parses (g.clause false (.punct .semicolon)) c ((.keyword .kwIn, newline) :: more) fun init =>
      ∃ into', initTarget? init = some into' ∧ Same into into' := by
  rw [← yield_exprOf] at covers
  have covers : Covers (Tree.present (exprOf into)).yield c.marks _ := covers
  have stops : Stops false 1 ((.keyword .kwIn, newline) :: more) := Stops.cons_iff.mpr Nat.one_pos
  refine (complete.clause covers short (all_exprOf proper) (fun _ => isInFree_exprOf into) stops rfl
    nofun).weaken fun init same => ?_
  have found : (initTarget? init).map erase = some into.erase := by
    rw [← initTarget?_erase, ← same, initTarget?_erase]
    exact congrArg (Option.map erase) (forTarget?_exprOf into)
  obtain ⟨into', bare, same⟩ := Option.map_eq_some_iff.mp found
  exact ⟨into', bare, same.symm⟩

theorem Complete.forIn (complete : Complete n n g) {into : Node .lhs} {object : Node .sequence}
    {body : Node .statement} (covers : Covers (Tree.forIn s into object body).yield c.marks rest)
    (short : c.marks.length ≤ n + 1) (proper : (Tree.forIn s into object body).All Proper)
    (follow : body.MayPrecede rest) : Parses g.forStmt c rest (Placed (Tree.forIn s into object body)) := by
  obtain ⟨_, properInto, properObject, properBody⟩ := proper
  obtain ⟨_, _, _, _, start, head, behind⟩ := covers_loop (covers.of_single rfl)
  rw [List.append_assoc] at head
  obtain ⟨_, first, newline, more, rfl, head⟩ := head.of_append
  obtain ⟨t, _, _, beginning, starts, shorter, -⟩ := first.starts properInto Kind.noConfusion
  rw [start, List.length_cons, List.length_cons] at short
  refine parses_require start rfl fun after marks => parses_expect marks rfl fun after marks => ?_
  subst marks
  have length := congrArg List.length beginning
  rw [List.length_cons] at length shorter
  refine parses_take_no ?_ ?_
  · rw [beginning]
    rintro mark ⟨⟩
    rw [Symbol.not_isSpelled_word]
    rintro rfl
    cases starts
  · refine (complete.initOf first (by omega) properInto).bind ?_
    rintro init' after marks ⟨into', found, sameInto⟩
    rw [found]
    refine parses_take marks rfl fun after marks => ?_
    subst marks
    refine (complete.keysRest head behind (by omega) properObject properBody follow).bind ?_
    rintro ⟨object', body'⟩ last marks ⟨sameObject, sameBody⟩
    refine parses_pure marks fun span => ?_
    simp only [Same, erase] at sameInto sameObject sameBody ⊢
    rw [sameInto, sameObject, sameBody]

/-- The label of a jump, up to the semicolon. -/
theorem label_parses {label : Option Bytes} {newline : Bool}
    (covers : Covers (label.toList.flatMap fun n => [.sameLine, .name n]) c.marks ((.punct .semicolon, newline) :: rest)) :
    Parses Grammar.label c ((.punct .semicolon, newline) :: rest) (label = ·) := by
  cases label with
  | none =>
    have marks : c.marks = _ := covers
    refine parses_newlineAhead rfl ?_
    split
    · exact parses_pure marks rfl
    · refine parses_identifier? none marks ?_
      rintro mark ⟨⟩
      rfl
  | some name =>
    obtain ⟨sameLine, named⟩ := covers
    refine parses_sameLine sameLine (parses_identifier? (some name) named ?_)
    rintro mark ⟨⟩
    rfl

/-- A statement of a word and a label. -/
theorem jump_parses {w : Word} {label : Option Bytes} {build : Option Bytes → Span → Node .statement}
    {t : Node .statement} (covers : Covers (Slot.jump w label) c.marks rest) (same : Placed t (build label)) :
    Parses (require (.word w) >>= fun _ => Grammar.label >>= fun label => expect (.punct .semicolon) >>= fun _ =>
      pure (build label)) c rest (Placed t) := by
  obtain ⟨_, _, start, covers⟩ := covers
  obtain ⟨_, named, newline, _, rfl, rfl⟩ := covers.of_append
  refine parses_require start (Symbol.isSpelled_word.mpr rfl) fun after marks => ?_
  subst marks
  refine (label_parses named).bind ?_
  rintro _ after marks rfl
  exact parses_expect marks rfl fun after marks => parses_pure marks same

theorem Complete.returnValue (complete : Complete n n g) {value : Tree (.optional .sequence)} {newline : Bool}
    (covers : Covers (value.slots.flatMap (.sameLine :: ·)) c.marks ((.punct .semicolon, newline) :: rest))
    (short : c.marks.length ≤ n) (proper : value.All Proper) :
    Parses g.returnValue c ((.punct .semicolon, newline) :: rest) fun found => Same value (.ofOption found) := by
  cases value with
  | absent =>
    have marks : c.marks = _ := covers
    refine parses_newlineAhead rfl ?_
    split
    · exact parses_pure marks rfl
    · refine (parses_none (g.sequence_fails (complete.stuck true c (Cursor.forall_next? ?_))) marks).weaken ?_
      · rw [marks]
        rintro mark ⟨⟩
        rfl
      · rintro _ rfl
        rfl
  | present expr =>
    rw [flatMap_slots_present] at covers
    obtain ⟨sameLine, inside⟩ := covers
    refine parses_sameLine sameLine ((complete.expression inside short proper rfl).some.weaken ?_)
    rintro _ ⟨expr', rfl, same⟩
    exact congrArg Tree.present same

theorem Complete.returnStmt (complete : Complete n n g) {value : Tree (.optional .sequence)}
    (covers : Covers (Tree.returnStmt s value).yield c.marks rest) (short : c.marks.length ≤ n + 1)
    (proper : value.All Proper) : Parses g.returnStmt c rest (Placed (Tree.returnStmt s value)) := by
  obtain ⟨_, _, start, covers⟩ := covers.of_single rfl
  obtain ⟨_, inside, newline, _, rfl, rfl⟩ := covers.of_append
  rw [start, List.length_cons] at short
  refine parses_require start rfl fun after marks => ?_
  subst marks
  refine (complete.returnValue inside (by omega) proper).bind fun found after marks same => ?_
  exact parses_expect marks rfl fun after marks => parses_pure marks fun span =>
    congrArg (Tree.returnStmt .zero) same

theorem Complete.throwStmt (complete : Complete n n g) {value : Node .sequence}
    (covers : Covers (Tree.throwStmt s value).yield c.marks rest) (short : c.marks.length ≤ n + 1)
    (proper : value.All Proper) : Parses g.throwStmt c rest (Placed (Tree.throwStmt s value)) := by
  obtain ⟨_, _, start, sameLine, covers⟩ := covers.of_single rfl
  obtain ⟨_, inside, _, _, rfl, rfl⟩ := covers.of_append
  rw [start, List.length_cons] at short
  refine parses_require start rfl fun after marks => ?_
  subst marks
  refine parses_sameLine sameLine ?_
  refine (complete.expression inside (by omega) proper rfl).bind fun value' after marks same => ?_
  exact parses_expect marks rfl fun after marks => parses_pure marks fun span =>
    congrArg (Tree.throwStmt .zero) same

theorem Complete.labeled (complete : Complete n n g) {label : Bytes} {body : Node .statement}
    (covers : Covers (Tree.labeled s label body).yield c.marks rest) (short : c.marks.length ≤ n + 1)
    (proper : body.All Proper) (follow : body.MayPrecede rest) :
    Parses g.labeled c rest (Placed (Tree.labeled s label body)) := by
  obtain ⟨_, _, start, _, _, rfl, covers⟩ := covers.of_single rfl
  rw [start, List.length_cons, List.length_cons] at short
  refine parses_accept start rfl fun after marks => parses_expect marks rfl fun after marks => ?_
  subst marks
  refine (complete.statement body after rest covers (by omega) proper follow).bind ?_
  exact fun body' last marks same => parses_pure marks fun span => congrArg (Tree.labeled .zero label) same

end Statements

end Grammar

end EcmaFold
