import EcmaFold.Proofs.Parser.SoundExpression

/-!
No token of a statement is lost, invented or reordered.
-/

namespace EcmaFold

open EcmaFold.Tree EcmaFold.Parser

namespace Grammar

section Statements

variable {n : Nat} {g : Grammar} {c : Cursor}

theorem Sound.mono {m m' n' : Nat} (sound : Sound m n g) (fewer : m' ≤ m) (fewer' : n' ≤ n) :
    Sound m' n' g where
  stuck := sound.stuck
  assign allowIn c short := sound.assign allowIn c (by omega)
  statement c short := sound.statement c (by omega)
  element c short := sound.element c (by omega)
  settled c depth short deep := sound.settled c depth (by omega) deep

theorem Sound.exprStmt {m : Nat} (sound : Sound m n g) (short : c.rest.length ≤ m) :
    Reads g.exprStmt c fun build slots after => ∀ span, (build span).Ends slots after := by
  refine reads_ahead fun isFunction same => ?_
  cases isFunction with
  | true => exact reads_fail.bind (R := fun _ _ _ => False) fun _ _ _ _ never => never.elim
  | false =>
    have headed : Reads (g.sequence true) c fun t slots _ =>
        t.Good slots ∧ t.tokens.head? ≠ some (.keyword .kwFunction) := by
      intro clean expr after run
      obtain ⟨slots, covers, ⟨rfl, proper⟩, _⟩ := sound.sequence short clean expr after run
      refine ⟨_, covers, ⟨rfl, proper⟩, fun first => ?_⟩
      rw [← tokens_yield] at first
      have next := covers.head_token first
      rw [← Cursor.next?_eq_marks] at next
      rcases next with next | next
      · simp [next] at same
      · refine run.not_fails (g.sequence_fails (sound.stuck c ?_))
        intro t starts
        cases next.symm.trans starts
        rfl
    refine headed.bind ?_
    rintro expr _ between _ ⟨⟨rfl, proper⟩, head⟩
    refine reads_expect fun _ _ => reads_pure fun span => ⟨⟨eq_yield rfl rfl, head, proper⟩, nofun⟩

theorem Sound.declaration {allowIn : Bool} (sound : Sound n n g) (short : c.rest.length ≤ n) :
    Reads (g.declaration allowIn) c fun t slots _ => t.GoodIn allowIn slots := by
  refine Reads.spanned (reads_identifier.bind ?_)
  rintro name _ between shorter ⟨rfl, identifier⟩
  refine reads_take (fun between' shorter' => ?_) (reads_pure fun span => ?_)
  · refine (sound.assign allowIn between' (by omega)).bind ?_
    rintro init _ after _ ⟨rfl, proper, inFree⟩
    refine reads_pure fun span => ⟨eq_yield rfl ?_, ⟨identifier, proper⟩, inFree⟩
    rw [flatMap_slots_present, List.append_nil]
    rfl
  · exact ⟨rfl, ⟨identifier, trivial⟩, fun _ => rfl⟩

theorem Sound.declarations {allowIn : Bool} (sound : Sound n n g) (short : c.rest.length ≤ n) :
    Reads (separated (g.declaration allowIn)) c fun list slots _ =>
      slots = Slot.separated [.punct .comma] (ofList list).slots ∧ (ofList list).isNil = false ∧
        (ofList list).All Proper ∧ (allowIn = false → (ofList list).isInFree = true) := by
  refine (Reads.separated (fun c short => sound.declaration short) short).weaken ?_
  rintro list _ _ ⟨rfl, nonempty, items⟩
  refine ⟨by rw [slots_ofList], isNil_ofList nonempty, ?_, fun noIn => ?_⟩
  · exact all_ofList.mpr fun node member => (items node member).1
  · exact isInFree_ofList.mpr fun node member => (items node member).2 noIn

theorem Sound.varStmt (sound : Sound n n g) (short : c.rest.length ≤ n + 1) :
    Reads g.varStmt c fun build slots after => ∀ span, (build span).Ends slots after := by
  refine reads_require fun between shorter => (sound.declarations (by omega)).bind ?_
  rintro list _ between' _ ⟨rfl, nonempty, proper, _⟩
  exact reads_expect fun _ _ => reads_pure fun span => ⟨⟨eq_yield rfl rfl, nonempty, proper⟩, nofun⟩

theorem emptyStmt_reads : Reads emptyStmt c fun build slots after => ∀ span, (build span).Ends slots after :=
  reads_require fun _ _ => reads_pure fun _ => ⟨⟨rfl, trivial⟩, nofun⟩

theorem Sound.headExpr (sound : Sound n n g) (short : c.rest.length ≤ n) :
    Reads g.headExpr c fun t slots _ =>
      slots = .punct .lparen :: (t.yield ++ [.punct .rparen]) ∧ t.All Proper := by
  refine reads_expect fun between shorter => (sound.sequence (by omega)).bind ?_
  rintro expr _ between' _ ⟨⟨rfl, proper⟩, _⟩
  exact reads_expect fun _ _ => reads_pure ⟨rfl, proper⟩

/-- Where the part behind an `else` cannot be read, the `else` is not taken. -/
theorem Sound.noElse (sound : Sound n n g) (short : c.rest.length ≤ n)
    (stuck : (require (.word .kwElse) >>= fun _ => g.statement).Fails c) : c.NoElse := by
  intro after depth step deep
  have length := step.rest_length
  rcases bind_fails.mp stuck with missing | ⟨_, between, taken, failed⟩
  · have other := require_fails.mp missing _ step.next?
    simp at other
  · obtain ⟨t, step', _⟩ := require_gives.mp taken
    obtain ⟨_, rfl⟩ := step.unique step'
    exact (sound.settled after depth (by omega) deep).mp failed

theorem Sound.ifStmt (sound : Sound n n g) (short : c.rest.length ≤ n + 1) :
    Reads g.ifStmt c fun build slots after => ∀ span, (build span).Ends slots after := by
  refine reads_require fun between shorter => (sound.headExpr (by omega)).bind ?_
  rintro cond _ between' shorter' ⟨rfl, properCond⟩
  refine (sound.statement between' (by omega)).bind ?_
  rintro yes _ between'' shorter'' ⟨⟨rfl, properYes⟩, ends⟩
  -- With an `else` taken here, the first part cannot be one that would have taken it.
  have otherwise : Reads (require (.word .kwElse) >>= fun _ => g.statement) between''
      fun no slots after => slots = .word .kwElse :: no.yield ∧ no.All Proper ∧ yes.isOpen = false ∧
        (no.isOpen = true → after.NoElse) := by
    intro clean no after run
    have closed : yes.isOpen = false := by
      rw [← Bool.not_eq_true]
      intro isOpen
      obtain ⟨_, last, taken, read⟩ := bind_gives.mp run
      obtain ⟨t, step, spelled⟩ := require_gives.mp taken
      obtain rfl := Symbol.isSpelled_word.mp spelled
      have length := step.rest_length
      have failed := ends isOpen last last.rest.length step (Nat.le_refl _)
      exact read.not_fails ((sound.settled last _ (by omega) (Nat.le_refl _)).mpr failed)
    have reads : Reads (require (.word .kwElse) >>= fun _ => g.statement) between''
        fun no slots after => slots = .word .kwElse :: no.yield ∧ no.All Proper ∧
          (no.isOpen = true → after.NoElse) := by
      refine reads_require fun last shorterLast => (sound.statement last (by omega)).weaken ?_
      rintro no _ after ⟨⟨rfl, proper⟩, ends⟩
      exact ⟨rfl, proper, ends⟩
    obtain ⟨slots, covers, same, proper, ends⟩ := reads clean no after run
    exact ⟨slots, covers, same, proper, closed, ends⟩
  refine Reads.bind (Reads.optional (R := fun no slots after => match no with
    | some no => slots = .word .kwElse :: no.yield ∧ no.All Proper ∧ yes.isOpen = false ∧
        (no.isOpen = true → after.NoElse)
    | none => slots = [] ∧ after.NoElse) otherwise fun stuck => ⟨rfl, sound.noElse (by omega) stuck⟩) ?_
  rintro (_ | no) slots after _ found
  · obtain ⟨rfl, ended⟩ := found
    exact reads_pure fun span => ⟨⟨eq_yield rfl rfl, nofun, properCond, properYes, trivial⟩, fun _ => ended⟩
  · obtain ⟨rfl, properNo, closed, ended⟩ := found
    refine reads_pure fun span => ⟨⟨eq_yield rfl ?_, fun _ => closed, properCond, properYes, properNo⟩, ended⟩
    rw [List.append_nil, ofOption, flatMap_slots_present]
    rfl

theorem Sound.doWhile (sound : Sound n n g) (short : c.rest.length ≤ n + 1) :
    Reads g.doWhile c fun build slots after => ∀ span, (build span).Ends slots after := by
  refine reads_require fun between shorter => (sound.statement between (by omega)).bind ?_
  rintro body _ between' shorter' ⟨⟨rfl, properBody⟩, _⟩
  refine reads_expect fun between'' shorter'' => (sound.headExpr (by omega)).bind ?_
  rintro cond _ last _ ⟨rfl, properCond⟩
  exact reads_expect fun _ _ => reads_pure fun span =>
    ⟨⟨eq_yield rfl rfl, trivial, properBody, properCond⟩, nofun⟩

theorem Sound.whileStmt (sound : Sound n n g) (short : c.rest.length ≤ n + 1) :
    Reads g.whileStmt c fun build slots after => ∀ span, (build span).Ends slots after := by
  refine reads_require fun between shorter => (sound.headExpr (by omega)).bind ?_
  rintro cond _ between' shorter' ⟨rfl, properCond⟩
  refine (sound.statement between' (by omega)).bind ?_
  rintro body _ after _ ⟨⟨rfl, properBody⟩, ends⟩
  refine reads_pure fun span => ⟨⟨eq_yield rfl ?_, trivial, properCond, properBody⟩, ends⟩
  rw [List.append_nil]
  rfl

theorem Sound.clause {allowIn : Bool} {closing : Symbol} (sound : Sound n n g) (short : c.rest.length ≤ n) :
    Reads (g.clause allowIn closing) c fun t slots _ => t.GoodIn allowIn slots := by
  refine reads_ahead fun isClosing _ => ?_
  cases isClosing with
  | true => exact reads_pure ⟨rfl, trivial, fun _ => rfl⟩
  | false =>
    refine (sound.sequence short).bind ?_
    rintro expr _ after _ ⟨⟨rfl, proper⟩, inFree⟩
    exact reads_pure ⟨List.append_nil _, proper, inFree⟩

/-- What follows an initialisation, from its semicolon to the closing parenthesis. -/
def loopSlots (cond post : Tree (.optional .sequence)) (body : Node .statement) : List Slot :=
  cond.yield ++ .punct .semicolon :: (post.yield ++ .punct .rparen :: body.yield)

theorem Sound.loopRest (sound : Sound n n g) (short : c.rest.length ≤ n) :
    Reads g.loopRest c fun (cond, post, body) slots after => slots = loopSlots cond post body ∧
      cond.All Proper ∧ post.All Proper ∧ body.All Proper ∧ (body.isOpen = true → after.NoElse) := by
  refine (sound.clause short).bind ?_
  rintro cond _ between shorter ⟨rfl, properCond, _⟩
  refine reads_expect fun between' shorter' => (sound.clause (by omega)).bind ?_
  rintro post _ between'' shorter'' ⟨rfl, properPost, _⟩
  refine reads_expect fun last shorterLast => (sound.statement last (by omega)).bind ?_
  rintro body _ after _ ⟨⟨rfl, properBody⟩, ends⟩
  refine reads_pure ⟨?_, properCond, properPost, properBody, ends⟩
  rw [List.append_nil]
  rfl

theorem Sound.keysRest (sound : Sound n n g) (short : c.rest.length ≤ n) :
    Reads g.keysRest c fun (object, body) slots after =>
      slots = object.yield ++ .punct .rparen :: body.yield ∧ object.All Proper ∧ body.All Proper ∧
        (body.isOpen = true → after.NoElse) := by
  refine (sound.sequence short).bind ?_
  rintro object _ between shorter ⟨⟨rfl, properObject⟩, _⟩
  refine reads_expect fun between' shorter' => (sound.statement between' (by omega)).bind ?_
  rintro body _ after _ ⟨⟨rfl, properBody⟩, ends⟩
  refine reads_pure ⟨?_, properObject, properBody, ends⟩
  rw [List.append_nil]
  rfl

theorem endInit_reads {orIn : Bool} : Reads (endInit orIn) c fun _ slots _ => slots = [.punct .semicolon] := by
  refine reads_probe (fun _ _ => reads_pure rfl) ?_
  intro _ v after run
  cases orIn <;> simp at run

theorem Sound.forVarLoop {decls : List (Node .declaration)} {orIn : Bool} (sound : Sound n n g)
    (short : c.rest.length ≤ n) (nonempty : (ofList decls).isNil = false) (proper : (ofList decls).All Proper)
    (inFree : (ofList decls).isInFree = true) :
    Reads (endInit orIn >>= fun _ => g.forVarLoop decls) c fun build slots after => ∀ span,
      (build span).Good (Slot.word .kwFor :: .punct .lparen :: .word .kwVar ::
        (Slot.separated [.punct .comma] (ofList decls).slots ++ slots)) ∧
        ((build span).isOpen = true → after.NoElse) := by
  refine endInit_reads.bind ?_
  rintro _ _ between shorter rfl
  refine (sound.loopRest (by omega)).bind ?_
  rintro ⟨cond, post, body⟩ _ after _ ⟨rfl, properCond, properPost, properBody, ends⟩
  refine reads_pure fun span =>
    ⟨⟨eq_yield rfl ?_, ⟨nonempty, inFree⟩, proper, properCond, properPost, properBody⟩, ends⟩
  simp [loopSlots, Slot.head]

theorem Sound.forVarRest (sound : Sound n n g) (short : c.rest.length ≤ n) :
    Reads g.forVarRest c fun build slots after => ∀ span,
      (build span).Good (Slot.word .kwFor :: .punct .lparen :: .word .kwVar :: slots) ∧
        ((build span).isOpen = true → after.NoElse) := by
  refine (sound.declarations short).bind ?_
  rintro decls _ between shorter ⟨rfl, nonempty, proper, inFree⟩
  have loop : ∀ orIn, Reads (endInit orIn >>= fun _ => g.forVarLoop decls) between _ :=
    fun orIn => sound.forVarLoop (by omega) nonempty proper (inFree rfl)
  match decls with
  | [] => exact loop false
  | [decl] =>
    refine reads_take (fun between' shorter' => (sound.keysRest (by omega)).bind ?_) (loop true)
    rintro ⟨object, body⟩ _ after _ ⟨rfl, properObject, properBody, ends⟩
    refine reads_pure fun span => ⟨⟨eq_yield rfl ?_, ?_, proper.1, properObject, properBody⟩, ends⟩
    · simp [Slot.head, slots_ofList, Slot.separated, Symbol.token, Slot.word]
    · exact (Bool.and_eq_true_iff.mp (inFree rfl)).1
  | _ :: _ :: _ => exact loop false

theorem Sound.forLoop {init : Tree (.optional .sequence)} {orIn : Bool} (sound : Sound n n g)
    (short : c.rest.length ≤ n) (proper : init.All Proper) (inFree : init.isInFree = true) :
    Reads (endInit orIn >>= fun _ => g.forLoop init) c fun build slots after => ∀ span,
      (build span).Good (Slot.word .kwFor :: .punct .lparen :: (init.yield ++ slots)) ∧
        ((build span).isOpen = true → after.NoElse) := by
  refine endInit_reads.bind ?_
  rintro _ _ between shorter rfl
  refine (sound.loopRest (by omega)).bind ?_
  rintro ⟨cond, post, body⟩ _ after _ ⟨rfl, properCond, properPost, properBody, ends⟩
  refine reads_pure fun span =>
    ⟨⟨eq_yield rfl ?_, inFree, proper, properCond, properPost, properBody⟩, ends⟩
  simp [loopSlots, Slot.head]

theorem Sound.forRest (sound : Sound n n g) (short : c.rest.length ≤ n) :
    Reads g.forRest c fun build slots after => ∀ span,
      (build span).Good (Slot.word .kwFor :: .punct .lparen :: slots) ∧
        ((build span).isOpen = true → after.NoElse) := by
  refine (sound.clause short).bind ?_
  rintro init _ between shorter ⟨rfl, proper, inFree⟩
  have loop : ∀ orIn, Reads (endInit orIn >>= fun _ => g.forLoop init) between _ :=
    fun orIn => sound.forLoop (by omega) proper (inFree rfl)
  cases target : initTarget? init with
  | none => exact loop false
  | some lhs =>
    obtain ⟨same, properLhs⟩ := initTarget?_good target
    refine reads_take (fun between' shorter' => (sound.keysRest (by omega)).bind ?_) (loop true)
    rintro ⟨object, body⟩ _ after _ ⟨rfl, properObject, properBody, ends⟩
    refine reads_pure fun span => ⟨⟨eq_yield rfl ?_, trivial, properLhs proper, properObject, properBody⟩, ends⟩
    simp [same, Slot.head, Symbol.token, Slot.word]

theorem Sound.forStmt (sound : Sound n n g) (short : c.rest.length ≤ n + 1) :
    Reads g.forStmt c fun build slots after => ∀ span, (build span).Ends slots after :=
  reads_require fun _ _ => reads_expect fun _ _ =>
    reads_take (fun _ _ => sound.forVarRest (by omega)) (sound.forRest (by omega))

theorem label_reads : Reads label c fun label slots _ =>
    slots = label.toList.flatMap (fun n => [.sameLine, .name n]) ∧ ∀ n ∈ label, Name.identifier? n = some n := by
  refine reads_newlineAhead (reads_pure ⟨rfl, by simp⟩) (reads_identifier?.weaken ?_)
  rintro (_ | label) _ _ ⟨rfl, identifier⟩
  · exact .inr ⟨rfl, identifier⟩
  · exact .inl ⟨rfl, identifier⟩

theorem continueStmt_reads :
    Reads continueStmt c fun build slots after => ∀ span, (build span).Ends slots after := by
  refine reads_require fun _ _ => label_reads.bind ?_
  rintro label _ between _ ⟨rfl, identifier⟩
  exact reads_expect fun _ _ => reads_pure fun span => ⟨⟨eq_yield rfl rfl, identifier⟩, nofun⟩

theorem breakStmt_reads :
    Reads breakStmt c fun build slots after => ∀ span, (build span).Ends slots after := by
  refine reads_require fun _ _ => label_reads.bind ?_
  rintro label _ between _ ⟨rfl, identifier⟩
  exact reads_expect fun _ _ => reads_pure fun span => ⟨⟨eq_yield rfl rfl, identifier⟩, nofun⟩

theorem Sound.returnValue (sound : Sound n n g) (short : c.rest.length ≤ n) :
    Reads g.returnValue c fun value slots _ =>
      slots = (ofOption value).slots.flatMap (.sameLine :: ·) ∧ (ofOption value).All Proper := by
  refine reads_newlineAhead (reads_pure ⟨rfl, trivial⟩) (Reads.optional ?_ fun _ => .inr ⟨rfl, trivial⟩)
  refine (sound.sequence short).weaken ?_
  rintro value _ _ ⟨⟨rfl, proper⟩, _⟩
  exact .inl ⟨(flatMap_slots_present value _).symm, proper⟩

theorem Sound.returnStmt (sound : Sound n n g) (short : c.rest.length ≤ n + 1) :
    Reads g.returnStmt c fun build slots after => ∀ span, (build span).Ends slots after := by
  refine reads_require fun between shorter => (sound.returnValue (by omega)).bind ?_
  rintro value _ between' _ ⟨rfl, proper⟩
  exact reads_expect fun _ _ => reads_pure fun span => ⟨⟨eq_yield rfl rfl, trivial, proper⟩, nofun⟩

theorem Sound.withStmt (sound : Sound n n g) (short : c.rest.length ≤ n + 1) :
    Reads g.withStmt c fun build slots after => ∀ span, (build span).Ends slots after := by
  refine reads_require fun between shorter => (sound.headExpr (by omega)).bind ?_
  rintro object _ between' shorter' ⟨rfl, properObject⟩
  refine (sound.statement between' (by omega)).bind ?_
  rintro body _ after _ ⟨⟨rfl, properBody⟩, ends⟩
  refine reads_pure fun span => ⟨⟨eq_yield rfl ?_, trivial, properObject, properBody⟩, ends⟩
  rw [List.append_nil]
  rfl

theorem Sound.labeled (sound : Sound n n g) (short : c.rest.length ≤ n + 1) :
    Reads g.labeled c fun build slots after => ∀ span, (build span).Ends slots after := by
  refine reads_accept (fun t label between found clean shorter => ?_) reads_fail
  obtain rfl := nameOf?_eq_some.mp found
  refine reads_expect fun between' shorter' => (sound.statement between' (by omega)).bind ?_
  rintro body _ after _ ⟨⟨rfl, proper⟩, ends⟩
  refine reads_pure fun span => ⟨⟨eq_yield rfl ?_, clean, proper⟩, ends⟩
  rw [List.append_nil]
  rfl

theorem Sound.statements (sound : Sound n n g) (short : c.rest.length ≤ n) :
    Reads (many g.statement) c fun list slots _ => (ofList list).Good slots := by
  refine (@Reads.many _ c n _ yield (All Proper) (fun c short => ?_) short).weaken ?_
  · exact (sound.statement c short).weaken fun t slots after ends => ends.1
  · rintro list _ _ ⟨rfl, proper⟩
    exact ⟨(yield_ofList list).symm, all_ofList.mpr proper⟩

theorem Sound.caseClauses (sound : Sound n n g) (short : c.rest.length ≤ n) :
    Reads g.caseClauses c fun list slots _ => (ofList list).Good slots := by
  refine (@Reads.loop _ c n _ yield (All Proper) [] ?_ short).weaken ?_
  · intro c short
    refine reads_offset fun start => reads_take (fun between shorter => ?_) (reads_pure ⟨rfl, by simp⟩)
    refine (sound.sequence (by omega)).bind ?_
    rintro value _ between' shorter' ⟨⟨rfl, properValue⟩, _⟩
    refine reads_expect fun between'' shorter'' => (sound.statements (by omega)).bind ?_
    rintro body _ after _ ⟨rfl, properBody⟩
    refine reads_reached fun stop => reads_pure ⟨?_, ?_⟩
    · simp only [List.map_cons, List.map_nil, List.flatten_singleton, List.append_nil, if_true]
      exact eq_yield rfl rfl
    · rintro _ ⟨⟩
      · exact ⟨trivial, properValue, properBody⟩
      · contradiction
  · rintro list _ _ ⟨rfl, proper⟩
    refine ⟨?_, all_ofList.mpr proper⟩
    rw [List.append_nil, yield_ofList]

theorem Sound.defaultClause (sound : Sound n n g) (short : c.rest.length ≤ n) :
    Reads g.defaultClause c fun t slots _ => t.Good slots := by
  refine Reads.spanned (reads_require fun between shorter => reads_expect fun between' shorter' => ?_)
  refine (sound.statements (by omega)).bind ?_
  rintro body _ after _ ⟨rfl, proper⟩
  exact reads_pure fun span => ⟨rfl, trivial, proper⟩

theorem Sound.fallback (sound : Sound n n g) (short : c.rest.length ≤ n) :
    Reads g.fallback c fun (clause, trailing) slots _ => slots = clause.yield ++ (ofList trailing).yield ∧
      clause.All Proper ∧ (ofList trailing).All Proper ∧
      (clause.isAbsent = true → (ofList trailing).isNil = true) := by
  refine Reads.bind (Reads.optional (R := fun clause slots _ => (ofOption clause).Good slots)
    (sound.defaultClause short) fun _ => ⟨rfl, trivial⟩) ?_
  rintro (_ | clause) _ between shorter ⟨rfl, properClause⟩
  · exact reads_pure ⟨rfl, trivial, trivial, fun _ => rfl⟩
  · refine (sound.caseClauses (by omega)).bind ?_
    rintro trailing _ after _ ⟨rfl, properTrailing⟩
    refine reads_pure ⟨?_, properClause, properTrailing, nofun⟩
    rw [List.append_nil]
    rfl

theorem Sound.switchStmt (sound : Sound n n g) (short : c.rest.length ≤ n + 1) :
    Reads g.switchStmt c fun build slots after => ∀ span, (build span).Ends slots after := by
  refine reads_require fun between shorter => (sound.headExpr (by omega)).bind ?_
  rintro tag _ between' shorter' ⟨rfl, properTag⟩
  refine reads_expect fun between'' shorter'' => (sound.caseClauses (by omega)).bind ?_
  rintro cases _ last shorterLast ⟨rfl, properCases⟩
  refine (sound.fallback (by omega)).bind ?_
  rintro ⟨clause, trailing⟩ _ after _ ⟨rfl, properClause, properTrailing, absent⟩
  refine reads_expect fun _ _ => reads_pure fun span =>
    ⟨⟨eq_yield rfl ?_, absent, properTag, properCases, properClause, properTrailing⟩, nofun⟩
  simp [Slot.head, Symbol.token, Slot.word, Slot.punct]

theorem Sound.throwStmt (sound : Sound n n g) (short : c.rest.length ≤ n + 1) :
    Reads g.throwStmt c fun build slots after => ∀ span, (build span).Ends slots after := by
  refine reads_require fun between shorter => reads_newlineAhead ?_ ?_
  · exact reads_failMissing.bind (R := fun _ _ _ => False) fun _ _ _ _ never => never.elim
  · refine (sound.sequence (by omega)).bind ?_
    rintro value _ between' _ ⟨⟨rfl, proper⟩, _⟩
    exact reads_expect fun _ _ => reads_pure (.inl fun span => ⟨⟨eq_yield rfl rfl, trivial, proper⟩, nofun⟩)

theorem Sound.block (sound : Sound n n g) (short : c.rest.length ≤ n + 1) :
    Reads g.block c fun t slots _ => t.Good slots := by
  refine Reads.spanned (reads_expect fun between shorter => (sound.statements (by omega)).bind ?_)
  rintro list _ between' _ ⟨rfl, proper⟩
  exact reads_expect fun _ _ => reads_pure fun span => ⟨eq_yield rfl rfl, trivial, proper⟩

theorem catchParam_reads : Reads catchParam c fun name slots _ =>
    slots = [.punct .lparen, .name name, .punct .rparen] ∧ Name.identifier? name = some name := by
  refine reads_expect fun _ _ => reads_identifier.bind ?_
  rintro name _ between _ ⟨rfl, identifier⟩
  exact reads_expect fun _ _ => reads_pure ⟨rfl, identifier⟩

theorem Sound.handler (sound : Sound n n g) (short : c.rest.length ≤ n) :
    Reads g.handler c fun handler slots _ => (ofOption handler).Good slots := by
  refine reads_offset fun start => reads_probe (fun between shorter => ?_) (reads_pure ⟨rfl, trivial⟩)
  refine catchParam_reads.bind ?_
  rintro param _ between' shorter' ⟨rfl, identifier⟩
  refine (sound.block (by omega)).bind ?_
  rintro body _ after _ ⟨rfl, proper⟩
  exact reads_reached fun stop => reads_pure ⟨rfl, identifier, proper⟩

theorem Sound.cleanup (sound : Sound n n g) (short : c.rest.length ≤ n) :
    Reads g.cleanup c fun cleanup slots _ =>
      slots = (ofOption cleanup).slots.flatMap (.word .kwFinally :: ·) ∧ (ofOption cleanup).All Proper := by
  refine reads_probe (fun between shorter => Reads.map ?_) (reads_pure ⟨rfl, trivial⟩)
  refine (sound.block (by omega)).weaken ?_
  rintro block _ _ ⟨rfl, proper⟩
  exact ⟨(flatMap_slots_present block _).symm, proper⟩

theorem Sound.tryStmt (sound : Sound n n g) (short : c.rest.length ≤ n + 1) :
    Reads g.tryStmt c fun build slots after => ∀ span, (build span).Ends slots after := by
  refine reads_require fun between shorter => (sound.block (by omega)).bind ?_
  rintro body _ between' shorter' ⟨rfl, properBody⟩
  refine (sound.handler (by omega)).bind ?_
  rintro handler _ between'' shorter'' ⟨rfl, properHandler⟩
  refine (sound.cleanup (by omega)).bind ?_
  rintro cleanup _ after _ ⟨rfl, properCleanup⟩
  have built : ∀ span, Proper _ (Tree.tryStmt span body (ofOption handler) (ofOption cleanup)) →
      (Tree.tryStmt span body (ofOption handler) (ofOption cleanup)).Ends (.word .kwTry :: (body.yield ++
        ((ofOption handler).yield ++ ((ofOption cleanup).slots.flatMap (.word .kwFinally :: ·) ++ [])))) after :=
    fun span some => ⟨⟨eq_yield rfl (by simp), some, properBody, properHandler, properCleanup⟩, nofun⟩
  cases handler with
  | some _ => exact reads_pure fun span => built span (.inl rfl)
  | none =>
    cases cleanup with
    | some _ => exact reads_pure fun span => built span (.inr rfl)
    | none => exact reads_fail.bind (R := fun _ _ _ => False) fun _ _ _ _ never => never.elim

theorem debugger_reads : Reads debugger c fun build slots after => ∀ span, (build span).Ends slots after :=
  reads_require fun _ _ => reads_expect fun _ _ => reads_pure fun _ => ⟨⟨rfl, trivial⟩, nofun⟩

theorem Sound.blockStmt (sound : Sound n n g) (short : c.rest.length ≤ n + 1) :
    Reads g.blockStmt c fun t slots after => t.Ends slots after := by
  refine reads_ahead fun isBrace _ => ?_
  cases isBrace with
  | true => exact Reads.map ((sound.block short).weaken fun t slots after good => ⟨good, nofun⟩)
  | false => exact reads_fail

theorem Sound.statementForm (sound : Sound (n + 1) n g) (short : c.rest.length ≤ n + 1) :
    Reads g.statementForm c fun t slots after => t.Ends slots after := by
  have inner := sound.mono (Nat.le_succ n) (Nat.le_refl n)
  exact (sound.exprStmt short).spanned.either <| (inner.varStmt short).spanned.either <|
    emptyStmt_reads.spanned.either <| (inner.ifStmt short).spanned.either <|
    (inner.doWhile short).spanned.either <| (inner.whileStmt short).spanned.either <|
    (inner.forStmt short).spanned.either <| continueStmt_reads.spanned.either <|
    breakStmt_reads.spanned.either <| (inner.returnStmt short).spanned.either <|
    (inner.withStmt short).spanned.either <| (inner.labeled short).spanned.either <|
    (inner.switchStmt short).spanned.either <| (inner.throwStmt short).spanned.either <|
    (inner.tryStmt short).spanned.either <| debugger_reads.spanned.either (inner.blockStmt short)

theorem Sound.funcDecl (sound : Sound n n g) (short : c.rest.length ≤ n + 1) :
    Reads g.funcDecl c fun t slots _ => t.Good slots := by
  refine Reads.spanned (reads_require fun between shorter => reads_identifier.bind ?_)
  rintro name _ between' shorter' ⟨rfl, identifier⟩
  refine params_reads.bind ?_
  rintro params _ between'' shorter'' ⟨rfl, identifiers⟩
  refine (sound.functionBody (by omega)).bind ?_
  rintro body _ after _ ⟨rfl, proper⟩
  refine reads_pure fun span => ⟨eq_yield rfl ?_, ⟨identifier, identifiers⟩, proper⟩
  simp [Slot.function, Slot.word, Symbol.token]

end Statements

/-- A grammar that may nest as deep as there are lexemes loses no token. -/
theorem ofDepth_sound : ∀ {n depth : Nat}, n ≤ depth → Sound n n (ofDepth depth) := by
  intro n
  have settled : ∀ {n depth : Nat}, n ≤ depth → ∀ (c : Cursor) (depth' : Nat), c.rest.length ≤ n →
      c.rest.length ≤ depth' → ((ofDepth depth).statement.Fails c ↔ (ofDepth depth').statement.Fails c) :=
    fun deep c depth' short deep' => ⟨statement_fails_of_depth (by omega) deep',
      statement_fails_of_depth deep' (by omega)⟩
  induction n with
  | zero =>
    intro depth deep
    have empty : ∀ c : Cursor, c.rest.length ≤ 0 → c.NoStatement := by
      rintro ⟨_, _ | _⟩ short t next
      · cases next
      · cases short
    exact
      { stuck := fun _ => assign_fails
        assign := fun _ c short => reads_of_fails (assign_fails (empty c short).noExpression)
        statement := fun c short => reads_of_fails (statement_fails (empty c short))
        element := fun c short => reads_of_fails (element_fails (empty c short))
        settled := settled deep }
  | succ n ih =>
    intro depth deep
    obtain ⟨d, rfl⟩ := Nat.exists_eq_add_of_le' deep
    have inner : Sound n n (ofDepth (d + n)) := ih (Nat.le_add_left n d)
    have forms : Sound (n + 1) n
        ⟨(ofDepth (d + n)).assignExpr, (ofDepth (d + n)).statement, (ofDepth (d + n)).element⟩ :=
      { stuck := fun _ => (ofDepth (d + n)).assignExpr_fails
        assign := fun _ _ short => inner.assignExpr short
        statement := inner.statement
        element := inner.element
        settled := inner.settled }
    exact
      { stuck := fun _ => (ofDepth (d + n)).assignExpr_fails
        assign := fun _ _ short => inner.assignExpr short
        statement := fun _ short => forms.statementForm short
        element := fun _ short => (inner.funcDecl short).either
          (Reads.map ((forms.statementForm short).weaken fun _ _ _ ends => ends.1))
        settled := settled deep }

end Grammar

end EcmaFold
