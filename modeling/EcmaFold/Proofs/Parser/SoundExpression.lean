import EcmaFold.Proofs.Parser.Reads
import EcmaFold.Proofs.Vocabulary

/-!
No token of an expression is lost, invented or reordered: what a production takes is the yield of the tree it
gives, and that tree is proper.
-/

namespace EcmaFold

open EcmaFold.Tree EcmaFold.Parser

/-- The slots are those of the tree, and the tree is proper. -/
def Tree.Good {shape : Shape} (tree : Tree shape) (slots : List Slot) : Prop :=
  slots = tree.yield ∧ tree.All Proper

/-- The slots are those of the tree where there is one, and none where there is not. -/
def Tree.GoodOption {shape : Shape} : Option (Tree shape) → List Slot → Prop
  | some tree, slots => tree.Good slots
  | none, slots => slots = []

/-- The tree is good, and free of the operator `in` where that is not allowed. -/
abbrev Tree.GoodIn {shape : Shape} (allowIn : Bool) (tree : Tree shape) (slots : List Slot) : Prop :=
  slots = tree.yield ∧ tree.All Proper ∧ (allowIn = false → tree.isInFree = true)

theorem Tree.eq_yield {shape : Shape} {tree : Tree shape} {part slots : List Slot} (single : tree.slots = [part])
    (same : slots = part) : slots = tree.yield := by
  rw [yield, single, same, List.flatten_singleton]

/-- An `else` here could not be taken: no statement can be read behind it, however deep the grammar goes. -/
def Cursor.NoElse (c : Cursor) : Prop :=
  ∀ after depth, c.Steps (.keyword .kwElse) after → after.rest.length ≤ depth →
    (Grammar.ofDepth depth).statement.Fails after

/-- The statement is good, and if it ends in an `if` without `else`, none can be taken behind it. -/
abbrev Tree.Ends (tree : Node .statement) (slots : List Slot) (after : Cursor) : Prop :=
  tree.Good slots ∧ (tree.isOpen = true → after.NoElse)

namespace Grammar

/-- What is known of a grammar at cursors with at most `m` lexemes left, where it reads assignments, and with at
most `n`, where it reads statements and source elements. -/
structure Sound (m n : Nat) (g : Grammar) : Prop where
  stuck : ∀ c : Cursor, c.NoExpression → (g.assign true).Fails c
  assign : ∀ (allowIn : Bool) (c : Cursor), c.rest.length ≤ m →
    Reads (g.assign allowIn) c fun t slots _ => t.GoodIn allowIn slots
  statement : ∀ c : Cursor, c.rest.length ≤ n → Reads g.statement c fun t slots after => t.Ends slots after
  element : ∀ c : Cursor, c.rest.length ≤ n → Reads g.element c fun t slots _ => t.Good slots
  settled : ∀ (c : Cursor) (depth : Nat), c.rest.length ≤ n → c.rest.length ≤ depth →
    (g.statement.Fails c ↔ (ofDepth depth).statement.Fails c)

section Expressions

variable {m n : Nat} {g : Grammar} {allowIn : Bool} {c : Cursor}

theorem Sound.sequence (sound : Sound m n g) (short : c.rest.length ≤ m) :
    Reads (g.sequence allowIn) c fun t slots _ =>
      t.Good slots ∧ (allowIn = false → t.isInFree = true) := by
  refine Reads.spanned (Reads.bind (Reads.separated (sound.assign allowIn) short) ?_)
  rintro list _ after _ ⟨rfl, nonempty, items⟩
  refine reads_pure fun span => ⟨⟨?_, ?_, ?_⟩, ?_⟩
  · rw [← slots_ofList]
    rfl
  · exact isNil_ofList nonempty
  · exact all_ofList.mpr fun node member => (items node member).1
  · intro noIn
    exact isInFree_ofList.mpr fun node member => (items node member).2 noIn

theorem params_reads : Reads params c fun names slots _ =>
    slots = .punct .lparen :: (Slot.separated [.punct .comma] (names.map fun n => [Slot.name n]) ++
      [.punct .rparen]) ∧ ∀ n ∈ names, Name.identifier? n = some n := by
  refine reads_expect fun between _ => reads_take (fun _ _ => reads_pure ⟨rfl, by simp⟩) ?_
  refine (Reads.separated (fun _ _ => reads_identifier) (Nat.le_refl _)).bind ?_
  rintro names _ after _ ⟨rfl, _, identifiers⟩
  exact reads_expect fun _ _ => reads_pure ⟨rfl, identifiers⟩

theorem Sound.functionBody (sound : Sound m n g) (short : c.rest.length ≤ n) :
    Reads g.functionBody c fun t slots _ =>
      slots = .punct .lbrace :: (t.yield ++ [.punct .rbrace]) ∧ t.All Proper := by
  refine reads_expect fun between shorter => ?_
  refine Reads.bind (@Reads.loop _ between n _ yield (All Proper) [.punct .rbrace] ?_ (by omega)) ?_
  · intro c short
    refine reads_probe (fun _ _ => reads_pure ⟨rfl, by simp⟩) ?_
    refine (sound.element c short).bind ?_
    rintro element _ after _ ⟨rfl, proper⟩
    exact reads_pure ⟨by simp, by simpa using proper⟩
  · rintro body _ after _ ⟨rfl, proper⟩
    refine reads_pure ⟨?_, all_ofList.mpr proper⟩
    rw [yield_ofList]
    exact congrArg _ (List.append_nil _)

theorem Sound.functionExpr (sound : Sound n n g) (short : c.rest.length ≤ n + 1) :
    Reads g.functionExpr c fun t slots _ => t.Good slots ∧ t.isInstantiated = false := by
  refine Reads.spanned (reads_require fun between shorter => reads_identifier?.bind ?_)
  rintro name _ between' shorter' ⟨rfl, identifier⟩
  refine params_reads.bind ?_
  rintro params _ between'' shorter'' ⟨rfl, identifiers⟩
  refine (sound.functionBody (by omega)).bind ?_
  rintro body _ after _ ⟨rfl, proper⟩
  refine reads_pure fun span => ⟨⟨eq_yield rfl ?_, ⟨identifier, identifiers⟩, proper⟩, rfl⟩
  simp [Slot.function, Slot.word, Symbol.token]

/-- The primary expression that one token makes has that token as its yield. -/
theorem atom?_good {t : Token} {node : Span → Node .primary} (found : atom? t = some node) (clean : t.Clean)
    (span : Span) : (node span).Good [.token t] ∧ (node span).isInstantiated = false := by
  cases t with
  | keyword w =>
    cases w <;> simp only [atom?, Option.some.injEq, reduceCtorEq] at found <;> subst found <;>
      exact ⟨⟨rfl, trivial⟩, rfl⟩
  | number value => cases found; exact ⟨⟨rfl, clean⟩, rfl⟩
  | string value => cases found; exact ⟨⟨rfl, trivial⟩, rfl⟩
  | name spelling => cases found; exact ⟨⟨rfl, clean⟩, rfl⟩
  | _ => cases found

theorem atom_reads : Reads atom c fun t slots _ => t.Good slots ∧ t.isInstantiated = false := by
  refine Reads.spanned (reads_accept (fun t node between found clean _ => ?_) reads_fail)
  exact reads_pure (atom?_good found clean)

/-- The slots of an array from one of its elements on. -/
def arrayRest (elements : List (Node .assign)) : List Slot :=
  .elision :: (Slot.separated [.punct .comma, .elision] (elements.map yield) ++ [.elision, .punct .rbracket])

/-- A comma in front stands for nothing. -/
theorem covers_arrayRest_comma {elements : List (Node .assign)} {marks rest : List Mark} {newline : Bool}
    (covers : Covers (arrayRest elements) marks rest) :
    Covers (arrayRest elements) ((.punct .comma, newline) :: marks) rest := by
  obtain ⟨commas, more, all, rfl, tail⟩ := covers
  exact ⟨(.punct .comma, newline) :: commas, more, List.forall_mem_cons.mpr ⟨rfl, all⟩, rfl, tail⟩

/-- An element in front, with a comma behind it that separates it from the next element or, if there is none,
stands for nothing. -/
theorem covers_arrayRest_cons {element : Node .assign} {elements : List (Node .assign)}
    {marks between rest : List Mark} {newline : Bool}
    (first : Covers element.yield marks ((.punct .comma, newline) :: between))
    (covers : Covers (arrayRest elements) between rest) :
    Covers (arrayRest (element :: elements)) marks rest := by
  refine ⟨[], marks, by simp, rfl, ?_⟩
  rw [List.map_cons, Slot.separated_cons, List.append_assoc]
  refine first.append ?_
  obtain ⟨commas, more, all, rfl, tail⟩ := covers
  cases elements with
  | nil =>
    obtain ⟨commas', more', all', rfl, tail⟩ := tail
    refine ⟨(.punct .comma, newline) :: (commas ++ commas'), more', ?_, by simp, tail⟩
    simp only [List.forall_mem_cons, List.forall_mem_append, true_and]
    exact ⟨all, all'⟩
  | cons next elements =>
    rw [List.map_cons, Slot.separated_cons] at tail
    refine ⟨newline, commas ++ more, rfl, commas, more, all, rfl, ?_⟩
    simpa using tail

/-- One round of an array: its end, a comma, or an element with one of the two behind it. -/
def IsArrayRound (found : List (Node .assign) × Bool) (slots : List Slot) : Prop :=
  let closing : Punct := if found.2 then .comma else .rbracket
  (found.1 = [] ∧ slots = [.punct closing]) ∨
    ∃ element, found.1 = [element] ∧ element.All Proper ∧ slots = element.yield ++ [.punct closing]

theorem Sound.arrayRound (sound : Sound n n g) (short : c.rest.length ≤ n) : Reads (do
      if ← take (.punct .rbracket) then return ([], false)
      if ← take (.punct .comma) then return ([], true)
      let element ← g.assign true
      if ← take (.punct .comma) then return ([element], true)
      expect (.punct .rbracket)
      return ([element], false)) c fun found slots _ => IsArrayRound found slots := by
  refine reads_take (fun _ _ => reads_pure (.inl ⟨rfl, rfl⟩)) ?_
  refine reads_take (fun _ _ => reads_pure (.inl ⟨rfl, rfl⟩)) ?_
  refine (sound.assign true c short).bind ?_
  rintro element _ after _ ⟨rfl, proper, _⟩
  refine reads_take (fun _ _ => reads_pure (.inr ⟨element, rfl, proper, rfl⟩)) ?_
  exact reads_expect fun _ _ => reads_pure (.inr ⟨element, rfl, proper, rfl⟩)

theorem Sound.arrayLit (sound : Sound n n g) (short : c.rest.length ≤ n + 1) :
    Reads g.arrayLit c fun t slots _ => t.Good slots ∧ t.isInstantiated = false := by
  refine Reads.spanned (reads_require fun between shorter => Reads.bind (R := fun list slots _ =>
    slots = arrayRest list ∧ ∀ node ∈ list, node.All Proper) ?_ ?_)
  · intro clean list after run
    have result := loop_induction (motive := fun c list after => c.rest.length ≤ n → c.Clean →
      Covers (arrayRest list) c.marks after.marks ∧ ∀ node ∈ list, node.All Proper) ?_ ?_ run (by omega) clean
    · exact ⟨_, result.1, rfl, result.2⟩
    · intro c found after first short clean
      obtain ⟨slots, covers, ⟨rfl, rfl⟩ | ⟨element, rfl, proper, rfl⟩⟩ :=
        sound.arrayRound short clean _ after first
      · exact ⟨⟨[], c.marks, by simp, rfl, [], c.marks, by simp, rfl, covers⟩, by simp⟩
      · obtain ⟨between, first, closing⟩ := covers.of_append
        refine ⟨⟨[], c.marks, by simp, rfl, first.append ?_⟩, by simpa using proper⟩
        exact ⟨[], between, by simp, rfl, closing⟩
    · intro c found between rest after first ih short clean
      obtain ⟨slots, covers, holds⟩ := sound.arrayRound short clean _ between first
      have more := ih (Nat.le_trans covers.rest_length_le short) (clean.of_covers covers)
      obtain ⟨rfl, rfl⟩ | ⟨element, rfl, proper, rfl⟩ := holds
      · obtain ⟨newline, _, marks, rfl⟩ := covers
        refine ⟨?_, more.2⟩
        rw [marks]
        exact covers_arrayRest_comma more.1
      · obtain ⟨_, first, newline, _, rfl, rfl⟩ := covers.of_append
        exact ⟨covers_arrayRest_cons first more.1, List.forall_mem_cons.mpr ⟨proper, more.2⟩⟩
  · rintro list _ after _ ⟨rfl, proper⟩
    refine reads_pure fun span => ⟨⟨?_, trivial, all_ofList.mpr proper⟩, rfl⟩
    rw [arrayRest, ← slots_ofList]
    rfl

theorem Sound.paren (sound : Sound n n g) (short : c.rest.length ≤ n + 1) :
    Reads g.paren c fun t slots _ => t.Good slots ∧ t.isInstantiated = false := by
  refine Reads.spanned (reads_take (fun between shorter => ?_) reads_failMissing)
  refine (sound.sequence (by omega)).bind ?_
  rintro expr _ after _ ⟨⟨rfl, proper⟩, _⟩
  exact reads_expect fun _ _ => reads_pure fun span =>
    ⟨⟨(List.append_nil _).symm, trivial, proper⟩, rfl⟩

theorem Sound.primary (sound : Sound n n g) (short : c.rest.length ≤ n + 1) :
    Reads g.primary c fun t slots _ => t.Good slots ∧ t.isInstantiated = false :=
  atom_reads.either ((sound.arrayLit short).either (sound.paren short))

theorem Sound.arguments (sound : Sound n n g) (short : c.rest.length ≤ n + 1) :
    Reads g.arguments c fun t slots _ => t.Good slots := by
  refine Reads.spanned (reads_require fun between shorter => ?_)
  refine reads_take (fun _ _ => reads_pure fun span => ⟨rfl, trivial, trivial⟩) ?_
  refine (Reads.separated (sound.assign true) (by omega)).bind ?_
  rintro list _ after _ ⟨rfl, _, items⟩
  refine reads_expect fun _ _ => reads_pure fun span => ⟨?_, trivial, ?_⟩
  · rw [← slots_ofList]
    exact (List.append_nil _).symm
  · exact all_ofList.mpr fun node member => (items node member).1

theorem Sound.index {calls : Bool} (sound : Sound n n g) (short : c.rest.length ≤ n + 1) :
    Reads (g.index : Parser (Node (.modifier calls))) c fun t slots _ => t.Good slots := by
  refine Reads.spanned (reads_require fun between shorter => (sound.sequence (by omega)).bind ?_)
  rintro expr _ after _ ⟨⟨rfl, proper⟩, _⟩
  exact reads_expect fun _ _ => reads_pure fun span => ⟨(List.append_nil _).symm, trivial, proper⟩

/-- A name behind a point, reserved or not, is the token of that name. -/
theorem anyName?_good {t : Token} {name : Bytes} (found : anyName? t = some name) (clean : t.Clean) :
    .ofName name = t ∧ Name.read? name = some name := by
  cases t with
  | name spelling =>
    cases found
    have filtered : (Name.read? name).filter (fun name => (Word.ofSpelling? name).isNone) = some name := clean
    rw [Option.filter_eq_some_iff] at filtered
    refine ⟨?_, filtered.1⟩
    rw [Token.ofName, Option.isNone_iff_eq_none.mp filtered.2]
  | keyword w =>
    cases found
    refine ⟨?_, Word.read?_spelling w⟩
    rw [Token.ofName, Word.ofSpelling?_spelling]
  | _ => cases found

theorem property_reads {calls : Bool} :
    Reads (property : Parser (Node (.modifier calls))) c fun t slots _ => t.Good slots := by
  have pointReads : Reads point c fun _ slots _ => slots = [.punct .dot] := by
    have all : Reads (expect (.punct .dot) >>= fun _ => pure ()) c fun _ slots _ => slots = [.punct .dot] :=
      reads_expect fun _ _ => reads_pure rfl
    refine all.of_result ?_
    rw [point_result]
    exact result_eq_of_gives fun v after => by simp
  refine Reads.spanned (pointReads.bind ?_)
  rintro _ _ between _ rfl
  refine reads_accept (fun t name _ found clean _ => reads_pure fun span => ?_) reads_failMissing
  obtain ⟨rfl, read⟩ := anyName?_good found clean
  exact ⟨rfl, read⟩

theorem Sound.modifier (sound : Sound n n g) (short : c.rest.length ≤ n + 1) (calls : Bool) :
    Reads (g.modifier calls) c fun t slots _ => t.Good slots := by
  cases calls with
  | false => exact (sound.index short).either property_reads
  | true =>
    have call : Reads (Tree.ofArguments <$> g.arguments) c fun t slots _ => t.Good slots :=
      Reads.map (sound.arguments short)
    exact call.either ((sound.index short).either property_reads)

theorem Sound.modifiers (sound : Sound n n g) (short : c.rest.length ≤ n + 1) (calls : Bool) :
    Reads (many (g.modifier calls)) c fun list slots _ => (ofList list).Good slots := by
  refine (Reads.many (fun c short => sound.modifier short calls) short).weaken ?_
  rintro list _ _ ⟨rfl, proper⟩
  exact ⟨(yield_ofList list).symm, all_ofList.mpr proper⟩

theorem Sound.member (sound : Sound n n g) (short : c.rest.length ≤ n + 1) :
    Reads g.member c fun t slots _ => t.Good slots := by
  refine Reads.spanned (((sound.functionExpr short).either (sound.primary short)).bind ?_)
  rintro target _ between shorter ⟨⟨rfl, properTarget⟩, base⟩
  refine (sound.modifiers (by omega) false).bind ?_
  rintro list _ after _ ⟨rfl, properList⟩
  refine reads_pure fun span => ⟨eq_yield rfl (by simp), ?_, properTarget, properList⟩
  change target.isInstantiated = true → _
  simp [base]

theorem news_reads : Reads news c fun starts slots _ =>
    slots = List.replicate starts.length (.word .kwNew) := by
  refine (@Reads.loop _ c c.rest.length _ (fun _ => [.word .kwNew]) (fun _ => True) [] ?_ (Nat.le_refl _)).weaken
    ?_
  · intro c _
    refine reads_offset fun start => ?_
    exact reads_take (fun _ _ => reads_pure ⟨rfl, by simp⟩) (reads_pure ⟨rfl, by simp⟩)
  · rintro starts _ _ ⟨rfl, _⟩
    induction starts with
    | nil => rfl
    | cons start starts ih => simp [List.replicate_succ]

theorem yield_ofInstantiation (span : Span) (target : Node .member) (args : Node .arguments) :
    (Tree.ofInstantiation (Tree.instantiation span target args)).yield =
      .word .kwNew :: (target.yield ++ args.yield) :=
  List.append_nil _

theorem yield_instantiated (span : Span) (target : Node .member) (args : Node .arguments) :
    (Tree.instantiated (Tree.instantiation span target args)).yield =
      .word .kwNew :: (target.yield ++ args.yield) :=
  List.append_nil _

theorem yield_member (span : Span) (target : Node .primary) (modifiers : Tree (.list (.modifier false))) :
    (Tree.member span target modifiers).yield = target.yield ++ modifiers.yield :=
  List.append_nil _

/-- Each `new` that is paired moves from the front into the tree. -/
theorem Sound.pairNews (sound : Sound n n g) :
    ∀ (starts : List Nat) {target : Node .member} {c : Cursor}, c.rest.length ≤ n + 1 → target.All Proper →
      Reads (g.pairNews starts target) c fun result slots _ =>
        List.replicate starts.length (.word .kwNew) ++ (target.yield ++ slots) =
          List.replicate result.1.length (.word .kwNew) ++ result.2.yield ∧ result.2.All Proper := by
  intro starts
  induction starts with
  | nil =>
    intro target c _ proper
    exact reads_pure ⟨by simp, proper⟩
  | cons start outer ih =>
    intro target c short proper
    refine Reads.bind (Reads.optional (R := fun args slots _ => GoodOption args slots)
      (sound.arguments short) fun _ => rfl) ?_
    rintro (_ | args) slots between shorter found
    · obtain rfl : slots = [] := found
      exact reads_pure ⟨by simp, proper⟩
    · obtain ⟨rfl, properArgs⟩ := found
      refine reads_reached fun stop => (sound.modifiers (by omega) false).bind ?_
      rintro list _ between' shorter' ⟨rfl, properList⟩
      have properInstantiation : ∀ span, (Tree.instantiation span target args).All Proper :=
        fun span => ⟨trivial, proper, properArgs⟩
      obtain _ | ⟨head, tail⟩ := list
      · refine (ih (by omega) (properInstantiation ⟨start, stop⟩)).weaken ?_
        rintro result slots _ ⟨same, properResult⟩
        refine ⟨?_, properResult⟩
        rw [← same, yield_ofInstantiation]
        simp [List.replicate_succ', yield_ofList]
      · refine reads_reached fun stop' => (ih (by omega) ?_).weaken ?_
        · exact ⟨fun _ => rfl, properInstantiation _, properList⟩
        · rintro result slots _ ⟨same, properResult⟩
          refine ⟨?_, properResult⟩
          rw [← same, yield_member, yield_instantiated]
          simp [List.replicate_succ']

theorem Sound.lhs (sound : Sound n n g) (short : c.rest.length ≤ n + 1) :
    Reads g.lhs c fun t slots _ => t.Good slots := by
  refine Reads.spanned (news_reads.bind ?_)
  rintro starts _ between shorter rfl
  refine (sound.member (by omega)).bind ?_
  rintro first _ between' shorter' ⟨rfl, proper⟩
  refine (sound.pairNews starts.reverse (by omega) proper).bind ?_
  rintro ⟨unpaired, target⟩ slots between'' shorter'' ⟨same, properTarget⟩
  rw [List.length_reverse] at same
  cases unpaired with
  | nil =>
    refine Reads.bind (Reads.optional (R := fun args slots _ => GoodOption args slots)
      (sound.arguments (by omega)) fun _ => rfl) ?_
    rintro (_ | args) more last shorterLast found
    · obtain rfl : more = [] := found
      refine reads_pure fun span => ⟨eq_yield rfl ?_, trivial, properTarget⟩
      simpa using same
    · obtain ⟨rfl, properArgs⟩ := found
      refine (sound.modifiers (by omega) true).bind ?_
      rintro list _ after _ ⟨rfl, properList⟩
      refine reads_pure fun span => ⟨eq_yield rfl ?_, trivial, properTarget, properArgs, properList⟩
      rw [← List.append_assoc, ← List.append_assoc, List.append_assoc _ _ slots, same]
      simp
  | cons start rest =>
    refine reads_pure fun span => ⟨eq_yield rfl ?_, trivial, properTarget⟩
    simpa using same

theorem Sound.update (sound : Sound n n g) (short : c.rest.length ≤ n + 1) :
    Reads g.update c fun t slots _ => t.Good slots := by
  refine Reads.spanned ((sound.lhs short).bind ?_)
  rintro operand _ between shorter ⟨rfl, proper⟩
  have plain : ∀ span, (Tree.update span operand none).Good (operand.yield ++ []) :=
    fun span => ⟨eq_yield rfl rfl, trivial, proper⟩
  refine reads_newlineAhead (reads_pure plain) ?_
  refine reads_accept (fun t op _ found _ _ => reads_pure (.inl fun span => ?_)) (reads_pure (.inr plain))
  rw [← UpdateOp.token_of_ofToken? found]
  exact ⟨eq_yield rfl rfl, trivial, proper⟩

theorem Sound.unary (sound : Sound n n g) (short : c.rest.length ≤ n + 1) :
    Reads g.unary c fun t slots _ => t.Good slots := by
  refine Reads.spanned (Reads.bind (R := fun ops slots _ => slots = ops.map fun op => .token op.token)
    (reads_manyTokens fun t op found => congrArg Slot.token (UnaryOp.token_of_ofToken? found)) ?_)
  rintro ops _ between shorter rfl
  refine (sound.update (by omega)).bind ?_
  rintro operand _ after _ ⟨rfl, proper⟩
  exact reads_pure fun span => ⟨eq_yield rfl (by simp), trivial, proper⟩

theorem level_reads {tier : Tier} {operand : Parser (Node tier.operand)}
    (each : ∀ c : Cursor, c.rest.length ≤ n → Reads operand c fun t slots _ => t.GoodIn allowIn slots)
    (short : c.rest.length ≤ n) :
    Reads (level tier allowIn operand) c fun t slots _ => t.GoodIn allowIn slots := by
  refine Reads.spanned ((each c short).bind ?_)
  rintro head _ between shorter ⟨rfl, properHead, inFreeHead⟩
  refine Reads.bind (@Reads.many _ between n _ yield
    (fun t : Node (.operation tier) => t.All Proper ∧ (allowIn = false → t.isInFree = true)) ?_ (by omega)) ?_
  · intro c short
    refine reads_offset fun start => reads_accept (fun t op between found _ shorter => ?_) reads_fail
    refine (each between (by omega)).bind ?_
    rintro right _ after _ ⟨rfl, proper, inFree⟩
    obtain ⟨rfl, notIn⟩ := Tier.opOf?_eq_some found
    refine reads_pure ⟨eq_yield rfl (by simp), proper, fun noIn => ?_⟩
    exact Bool.and_eq_true_iff.mpr ⟨decide_eq_true (notIn noIn), inFree noIn⟩
  · rintro list _ after _ ⟨rfl, items⟩
    refine reads_pure fun span => ⟨eq_yield rfl ?_, ⟨trivial, properHead, ?_⟩, fun noIn => ?_⟩
    · rw [← yield_ofList]
      simp
    · exact all_ofList.mpr fun node member => (items node member).1
    · exact Bool.and_eq_true_iff.mpr
        ⟨inFreeHead noIn, isInFree_ofList.mpr fun node member => (items node member).2 noIn⟩

theorem Sound.logicalOr (sound : Sound n n g) (short : c.rest.length ≤ n + 1) :
    Reads (g.logicalOr allowIn) c fun t slots _ => t.GoodIn allowIn slots := by
  have unary : ∀ c : Cursor, c.rest.length ≤ n + 1 → Reads g.unary c fun t slots _ => t.GoodIn allowIn slots :=
    fun c short => (sound.unary short).weaken fun t _ _ good => ⟨good.1, good.2, fun _ => by cases t; rfl⟩
  refine level_reads (fun c short => ?_) short
  refine level_reads (fun c short => ?_) short
  refine level_reads (fun c short => ?_) short
  refine level_reads (fun c short => ?_) short
  refine level_reads (fun c short => ?_) short
  refine level_reads (fun c short => ?_) short
  refine level_reads (fun c short => ?_) short
  refine level_reads (fun c short => ?_) short
  refine level_reads (fun c short => ?_) short
  exact level_reads unary short

theorem Sound.cond (sound : Sound n n g) (short : c.rest.length ≤ n + 1) :
    Reads (g.cond allowIn) c fun t slots _ => t.GoodIn allowIn slots := by
  refine Reads.spanned ((sound.logicalOr short).bind ?_)
  rintro test _ between shorter ⟨rfl, properTest, inFreeTest⟩
  refine reads_take (fun between' shorter' => ?_) (reads_pure fun span => ?_)
  · refine (sound.assign true between' (by omega)).bind ?_
    rintro yes _ between'' shorter'' ⟨rfl, properYes, _⟩
    refine reads_expect fun last shorterLast => (sound.assign allowIn last (by omega)).bind ?_
    rintro no _ after _ ⟨rfl, properNo, inFreeNo⟩
    refine reads_pure fun span => ⟨eq_yield rfl (by simp [Symbol.token, Slot.punct]), ?_, fun noIn => ?_⟩
    · exact ⟨trivial, properTest, properYes, properNo⟩
    · exact Bool.and_eq_true_iff.mpr ⟨inFreeTest noIn, inFreeNo noIn⟩
  · exact ⟨List.append_nil _, ⟨trivial, properTest⟩, inFreeTest⟩

theorem Sound.assignExpr (sound : Sound n n g) (short : c.rest.length ≤ n + 1) :
    Reads (g.assignExpr allowIn) c fun t slots _ => t.GoodIn allowIn slots := by
  refine Reads.spanned ((sound.cond short).bind ?_)
  rintro value _ between shorter ⟨rfl, proper, inFree⟩
  have plain : ∀ span, (Tree.assign span .nil value).GoodIn allowIn (value.yield ++ []) :=
    fun span => ⟨eq_yield rfl (List.append_nil _), ⟨trivial, trivial, proper⟩, inFree⟩
  cases bare : value.bareLhs? with
  | none => exact reads_pure plain
  | some lhs =>
    obtain ⟨same, properLhs⟩ := bareLhs?_good bare
    refine reads_accept (fun t op between' found _ shorter' => ?_) (reads_pure plain)
    refine (sound.assign allowIn between' (by omega)).bind ?_
    rintro rest _ after _ ⟨rfl, properRest, inFreeRest⟩
    rw [same, ← AssignOp.token_of_ofToken? found]
    cases rest with
    | assign s targets value =>
      obtain ⟨_, properTargets, properValue⟩ := properRest
      refine reads_pure fun span => ⟨eq_yield rfl ?_, ⟨trivial, ?_, properValue⟩, inFreeRest⟩
      · rw [show (Tree.assign s targets value).yield = targets.yield ++ value.yield from List.append_nil _]
        change _ = ((lhs.yield ++ [.token op.token]) ++ targets.yield) ++ value.yield
        simp
      · exact ⟨properLhs proper, properTargets⟩

end Expressions

end Grammar

end EcmaFold
