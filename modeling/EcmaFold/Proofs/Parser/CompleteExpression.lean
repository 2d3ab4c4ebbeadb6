import EcmaFold.Proofs.Parser.Parses

/-!
Every proper expression is read back from marks that its slots cover, as long as what stands behind it does not
bind tighter.
-/

namespace EcmaFold

open EcmaFold.Tree EcmaFold.Parser

theorem Covers.of_single {shape : Shape} {tree : Tree shape} {part : List Slot} {marks rest : List Mark}
    (covers : Covers tree.yield marks rest) (single : tree.slots = [part]) : Covers part marks rest := by
  rwa [yield, single, List.flatten_singleton] at covers

theorem Covers.single {shape : Shape} {tree : Tree shape} {part : List Slot} {marks rest : List Mark}
    (covers : Covers part marks rest) (single : tree.slots = [part]) : Covers tree.yield marks rest := by
  rwa [yield, single, List.flatten_singleton]

theorem Covers.of_cons {kind : Kind} {node : Node kind} {list : Tree (.list kind)} {slots : List Slot}
    {marks rest : List Mark} (covers : Covers ((Tree.cons node list).yield ++ slots) marks rest) :
    ∃ between, Covers node.yield marks between ∧ Covers (list.yield ++ slots) between rest := by
  rw [show (Tree.cons node list).yield = node.yield ++ list.yield from List.flatten_append,
    List.append_assoc] at covers
  exact covers.of_append

/-- No part of a statement in front comes next. -/
def NoTail (marks : List Mark) : Prop :=
  ∀ mark ∈ marks.head?, mark.1 ≠ .keyword .kwElse ∧ mark.1 ≠ .keyword .kwCatch ∧ mark.1 ≠ .keyword .kwFinally

/-- The marks may stand behind the statement: they begin with no part of a `try`, and with no `else` that the
statement would take. -/
def Tree.MayPrecede (t : Node .statement) (marks : List Mark) : Prop :=
  (∀ mark ∈ marks.head?, mark.1 ≠ .keyword .kwCatch ∧ mark.1 ≠ .keyword .kwFinally) ∧
    (t.isOpen = true → ∀ mark ∈ marks.head?, mark.1 ≠ .keyword .kwElse)

theorem NoTail.mayPrecede {marks : List Mark} (noTail : NoTail marks) (t : Node .statement) : t.MayPrecede marks :=
  ⟨fun mark next => (noTail mark next).2, fun _ mark next => (noTail mark next).1⟩

theorem noTail_of_startsStatement {t : Token} {newline : Bool} {more : List Mark}
    (starts : t.startsStatement = true) : NoTail ((t, newline) :: more) := by
  rintro mark ⟨⟩
  refine ⟨?_, ?_, ?_⟩ <;> (rintro rfl; cases starts)

/-- The number of `new`s with arguments that a member expression begins with. -/
def Tree.leadingNews : {shape : Shape} → Tree shape → Nat
  | _, .member _ object _ => object.leadingNews
  | _, .ofInstantiation node | _, .instantiated node => node.leadingNews
  | _, .instantiation _ object _ => object.leadingNews + 1
  | _, _ => 0

namespace Grammar

/-- A parser reads back every proper node from at most `n` marks, if what stands behind the node binds less than
the limit. -/
def Completes {kind : Kind} (n : Nat) (allowIn : Bool) (limit : Nat) (p : Parser (Node kind)) : Prop :=
  ∀ (t : Node kind) (c : Cursor) (rest : List Mark), Covers t.yield c.marks rest → c.marks.length ≤ n →
    t.All Proper → (allowIn = false → t.isInFree = true) → Stops allowIn limit rest → Parses p c rest (Same t)

/-- What a grammar reads back from at most `m` marks, if it is an assignment, and from at most `n` otherwise. -/
structure Complete (m n : Nat) (g : Grammar) : Prop where
  stuck : ∀ (allowIn : Bool) (c : Cursor), c.NoExpression → (g.assign allowIn).Fails c
  stuckStatement : ∀ c : Cursor, c.NoStatement → g.statement.Fails c
  assign : ∀ allowIn, Completes m allowIn 2 (g.assign allowIn)
  statement : ∀ (t : Node .statement) (c : Cursor) (rest : List Mark), Covers t.yield c.marks rest →
    c.marks.length ≤ n → t.All Proper → t.MayPrecede rest → Parses g.statement c rest (Same t)
  element : ∀ (t : Node .element) (c : Cursor) (rest : List Mark), Covers t.yield c.marks rest →
    c.marks.length ≤ n → t.All Proper → NoTail rest → Parses g.element c rest (Same t)

section Expressions

variable {m n : Nat} {g : Grammar} {allowIn : Bool} {c : Cursor} {rest : List Mark}

theorem exists_items {kind : Kind} {list : Tree (.list kind)} (filled : list.isNil = false) :
    ∃ items, items ≠ [] ∧ list = ofList items := by
  obtain ⟨_ | ⟨first, more⟩, rfl⟩ := exists_ofList list
  · cases filled
  · exact ⟨first :: more, List.cons_ne_nil _ _, rfl⟩

/-- Assignments with commas between them. -/
theorem Complete.assignments (complete : Complete m n g) (allowIn : Bool) {items : List (Node .assign)}
    (nonempty : items ≠ []) (covers : Covers (Slot.separated [.punct .comma] (ofList items).slots) c.marks rest)
    (short : c.marks.length ≤ m) (proper : (ofList items).All Proper)
    (inFree : allowIn = false → (ofList items).isInFree = true) (stops : Stops allowIn 1 rest) :
    Parses (separated (g.assign allowIn)) c rest (List.Forall₂ Same items) := by
  rw [slots_ofList] at covers
  refine parses_separated (F := Stops allowIn 2) covers nonempty short ?_ ?_ ?_ ?_
  · intro t member c between short covers follow
    exact complete.assign allowIn t c between covers short (all_ofList.mp proper t member)
      (fun noIn => isInFree_ofList.mp (inFree noIn) t member) follow
  · intro newline more
    exact Stops.cons_iff.mpr (Nat.lt_succ_self 1)
  · exact stops.mono (Nat.le_succ 1)
  · exact stops.ne (Nat.le_refl 1)

theorem Complete.sequence (complete : Complete m n g) (allowIn : Bool) :
    Completes m allowIn 1 (g.sequence allowIn) := by
  intro t c rest covers short proper inFree stops
  cases t with
  | sequence s list =>
    obtain ⟨items, nonempty, rfl⟩ := exists_items proper.1
    have covers := covers.of_single rfl
    refine Parses.spanned ((complete.assignments allowIn nonempty covers short proper.2 inFree stops).bind ?_)
    intro list after marks same
    exact parses_pure marks fun span => congrArg (Tree.sequence .zero) (Same.ofList same)

/-- An expression in front of a token that does not bind. -/
theorem Complete.expression (complete : Complete m n g) {expr : Node .sequence} {t : Token} {newline : Bool}
    {more : List Mark} (covers : Covers expr.yield c.marks ((t, newline) :: more)) (short : c.marks.length ≤ m)
    (proper : expr.All Proper) (loose : t.binds true = 0) :
    Parses (g.sequence true) c ((t, newline) :: more) (Same expr) :=
  complete.sequence true expr c _ covers short proper (fun noIn => by cases noIn)
    (Stops.cons_iff.mpr (loose ▸ Nat.one_pos))

theorem params_parses {names : List Bytes}
    (covers : Covers (.punct .lparen :: (Slot.separated [.punct .comma] (names.map fun n => [Slot.name n]) ++
      [.punct .rparen])) c.marks rest) : Parses params c rest (names = ·) := by
  obtain ⟨_, _, opening, covers⟩ := covers
  obtain ⟨_, inside, _, _, rfl, rfl⟩ := covers.of_append
  refine parses_expect opening rfl fun between marks => ?_
  obtain _ | ⟨first, others⟩ := names
  · cases inside
    exact parses_take marks rfl fun after marks => parses_pure marks rfl
  rw [← marks] at inside
  refine parses_take_no ?_ ?_
  · rw [List.map_cons, Slot.separated_cons] at inside
    obtain ⟨_, _, named, _⟩ := inside
    rw [named]
    rintro mark ⟨⟩
    rfl
  · refine (parses_separated (R := Eq) (F := fun _ => True) inside (List.cons_ne_nil _ _) (Nat.le_refl _)
      ?_ (fun _ _ => trivial) trivial ?_).bind ?_
    · rintro name _ c between _ ⟨_, _, marks, rfl⟩ _
      exact parses_identifier marks
    · simp
    · intro names after marks same
      refine parses_expect marks rfl fun after marks => parses_pure marks ?_
      rwa [List.forall₂_eq_eq_eq] at same

/-- The elements of a function body and the brace behind them. -/
def bodyElements (g : Grammar) : Parser (List (Node .element)) :=
  loop do
    if ← probe (.punct .rbrace) then return ([], false)
    let element ← g.element
    return ([element], true)

theorem Complete.bodyElements (complete : Complete m n g) {items : List (Node .element)} {c : Cursor}
    (covers : Covers ((ofList items).yield ++ [.punct .rbrace]) c.marks rest) (short : c.marks.length ≤ n)
    (proper : (ofList items).All Proper) : Parses g.bodyElements c rest (List.Forall₂ Same items) := by
  induction items generalizing c with
  | nil =>
    obtain ⟨_, _, marks, rfl⟩ := covers
    exact Parses.last (parses_probe marks rfl fun after marks => parses_pure marks ⟨rfl, .nil⟩)
  | cons item items ih =>
    obtain ⟨between, first, others⟩ := covers.of_cons
    obtain ⟨t, newline, more, marks, starts, shorter, -⟩ := first.starts proper.1 Kind.noConfusion
    have noBrace : ∀ mark ∈ c.marks.head?, (Symbol.punct .rbrace).isSpelled mark.1 = false := by
      rw [marks]
      rintro mark ⟨⟩
      rw [Symbol.not_isSpelled_punct]
      rintro rfl
      cases starts
    have follow : NoTail between := by
      cases items with
      | nil =>
        obtain ⟨_, _, rfl, _⟩ := others
        simp [NoTail]
      | cons item' items =>
        obtain ⟨_, second, _⟩ := others.of_cons
        obtain ⟨t, newline, more, rfl, starts, -⟩ := second.starts proper.2.1 Kind.noConfusion
        exact noTail_of_startsStatement starts
    rw [marks, List.length_cons] at short
    refine Parses.again (M := between) (P := fun found => ∃ v, found = [v] ∧ Same item v) ?_ ?_ ?_
    · refine parses_probe_no noBrace ((complete.element item c between first ?_ proper.1 follow).bind ?_)
      · rw [marks, List.length_cons]
        exact short
      · exact fun v after marks same => parses_pure marks ⟨rfl, v, rfl, same⟩
    · rw [marks, List.length_cons]
      omega
    · rintro _ after rfl ⟨v, rfl, same⟩
      exact (ih others (by omega) proper.2).weaken fun vs all => .cons same all

/-- Source elements in braces. -/
theorem Complete.functionBody (complete : Complete m n g) {items : List (Node .element)}
    (covers : Covers (.punct .lbrace :: ((ofList items).yield ++ [.punct .rbrace])) c.marks rest)
    (short : c.marks.length ≤ n) (proper : (ofList items).All Proper) :
    Parses g.functionBody c rest (Same (ofList items)) := by
  obtain ⟨_, _, opening, covers⟩ := covers
  rw [opening, List.length_cons] at short
  refine parses_expect opening rfl fun between marks => ?_
  subst marks
  refine (complete.bodyElements covers (by omega) proper).bind ?_
  exact fun body after marks same => parses_pure marks (Same.ofList same)

/-- The parameters and the body of a function, whatever is built of them. -/
theorem Complete.function (complete : Complete m n g) {kind : Kind} {names : List Bytes}
    {items : List (Node .element)} {tree : Node kind} {build : List Bytes → Tree (.list .element) → Span → Node kind}
    (covers : Covers (.punct .lparen :: (Slot.separated [.punct .comma] (names.map fun n => [Slot.name n]) ++
      .punct .rparen :: .punct .lbrace :: ((ofList items).yield ++ [.punct .rbrace]))) c.marks rest)
    (short : c.marks.length ≤ n) (proper : (ofList items).All Proper)
    (same : ∀ body, Same (ofList items) body → ∀ span, Same tree (build names body span)) :
    Parses (Grammar.params >>= fun names => g.functionBody >>= fun body => pure (build names body)) c rest
      fun built => ∀ span, Same tree (built span) := by
  rw [List.append_cons (Slot.separated _ _), ← List.cons_append] at covers
  obtain ⟨between, head, body⟩ := covers.of_append
  have shorter := head.length_le
  refine (params_parses head).bind ?_
  rintro _ after rfl rfl
  refine (complete.functionBody body (by omega) proper).bind ?_
  exact fun body after marks alike => parses_pure marks (same body alike)

theorem Complete.functionExpr (complete : Complete n n g) {s : Span} {own : Option Bytes} {params : List Bytes}
    {body : Tree (.list .element)} (covers : Covers (Tree.funcExpr s own params body).yield c.marks rest)
    (short : c.marks.length ≤ n + 1) (proper : body.All Proper) :
    Parses g.functionExpr c rest (Same (Tree.funcExpr s own params body)) := by
  obtain ⟨items, rfl⟩ := exists_ofList body
  obtain ⟨_, _, start, covers⟩ := covers.of_single rfl
  rw [start, List.length_cons] at short
  refine Parses.spanned (parses_require start rfl fun between marks => ?_)
  subst marks
  cases own with
  | none =>
    refine parses_accept_none ?_ (complete.function covers (by omega) proper ?_)
    · obtain ⟨_, _, marks, _⟩ := covers
      rw [marks]
      rintro mark ⟨⟩
      rfl
    · exact fun body same span => congrArg (Tree.funcExpr .zero none params) same
  | some name =>
    obtain ⟨_, _, named, covers⟩ := covers
    rw [named, List.length_cons] at short
    refine parses_accept named rfl fun after marks => ?_
    subst marks
    refine complete.function covers (by omega) proper ?_
    exact fun body same span => congrArg (Tree.funcExpr .zero (some name) params) same

/-- The primary expressions of one token. -/
theorem atom_parses {t : Token} {newline : Bool} {node : Span → Node .primary} {tree : Node .primary}
    (marks : c.marks = (t, newline) :: rest) (found : atom? t = some node) (same : ∀ span, Same tree (node span)) :
    Parses atom c rest (Same tree) := by
  refine Parses.spanned (parses_accept marks found fun after marks => ?_)
  exact parses_pure marks same

theorem Complete.paren (complete : Complete n n g) {s : Span} {expr : Node .sequence}
    (covers : Covers (Tree.paren s expr).yield c.marks rest) (short : c.marks.length ≤ n + 1)
    (proper : expr.All Proper) : Parses g.paren c rest (Same (Tree.paren s expr)) := by
  obtain ⟨_, _, opening, covers⟩ := covers.of_single rfl
  obtain ⟨_, inside, _, _, rfl, rfl⟩ := covers.of_append
  rw [opening, List.length_cons] at short
  refine Parses.spanned (parses_take opening rfl fun between marks => ?_)
  rw [← marks] at inside short
  refine (complete.expression inside (by omega) proper rfl).bind ?_
  intro expr' after marks same
  refine parses_expect marks rfl fun after marks => parses_pure marks fun span => ?_
  exact congrArg (Tree.paren .zero) same

/-- What is left of an array behind its bracket or behind a comma: commas that stand for nothing, elements with a
comma between two of them and more commas, and the closing bracket. -/
def arrayElements (g : Grammar) : Parser (List (Node .assign)) :=
  loop do
    if ← take (.punct .rbracket) then return ([], false)
    if ← take (.punct .comma) then return ([], true)
    let element ← g.assign true
    if ← take (.punct .comma) then return ([element], true)
    expect (.punct .rbracket)
    return ([element], false)

/-- Commas that stand for nothing are passed over. -/
theorem arrayElements_commas {commas more : List Mark} {Q : List (Node .assign) → Prop}
    (all : ∀ mark ∈ commas, mark.1 = Token.punct .comma) {c : Cursor} (marks : c.marks = commas ++ more)
    (next : ∀ after : Cursor, after.marks = more → Parses g.arrayElements after rest Q) :
    Parses g.arrayElements c rest Q := by
  induction commas generalizing c with
  | nil => exact next c marks
  | cons comma commas ih =>
    obtain ⟨t, newline⟩ := comma
    obtain rfl : t = .punct .comma := all _ List.mem_cons_self
    refine Parses.again (M := commas ++ more) (P := (· = [])) ?_ (by simp [marks]) ?_
    · refine parses_take_no (by simp [marks]) (parses_take marks rfl fun after marks => ?_)
      exact parses_pure marks ⟨rfl, rfl⟩
    · rintro _ after marks rfl
      exact ih (fun mark member => all mark (List.mem_cons_of_mem _ member)) marks

/-- Behind an element of an array there is a comma and what is left of the array, or the closing bracket. -/
theorem covers_behind_element {item : Node .assign} {items : List (Node .assign)} {marks : List Mark}
    (covers : Covers (Slot.separated [.punct .comma, .elision] ((item :: items).map yield) ++
      [.elision, .punct .rbracket]) marks rest) :
    ∃ between, Covers item.yield marks between ∧
      ((∃ newline more, between = (.punct .comma, newline) :: more ∧
        Covers (.elision :: (Slot.separated [.punct .comma, .elision] (items.map yield) ++
          [.elision, .punct .rbracket])) more rest) ∨
      items = [] ∧ ∃ newline, between = (.punct .rbracket, newline) :: rest) := by
  rw [List.map_cons, Slot.separated_cons, List.append_assoc] at covers
  obtain ⟨between, first, others⟩ := covers.of_append
  refine ⟨between, first, ?_⟩
  cases items with
  | nil =>
    obtain ⟨_ | ⟨⟨t, newline⟩, commas⟩, _, all, rfl, newline', _, rfl, rfl⟩ := others
    · exact .inr ⟨rfl, newline', rfl⟩
    · obtain rfl : t = .punct .comma := all _ List.mem_cons_self
      refine .inl ⟨newline, _, rfl, commas, _, ?_, rfl, [], _, by simp, rfl, newline', _, rfl, rfl⟩
      exact fun mark member => all mark (List.mem_cons_of_mem _ member)
  | cons item' items =>
    rw [List.map_cons, Slot.separated_cons]
    obtain ⟨newline, more, rfl, commas, _, all, rfl, others⟩ := others
    refine .inl ⟨newline, _, rfl, commas, _, all, rfl, ?_⟩
    simpa using others

theorem Complete.arrayElements (complete : Complete n n g) {items : List (Node .assign)} {c : Cursor}
    (covers : Covers (.elision :: (Slot.separated [.punct .comma, .elision] (items.map yield) ++
      [.elision, .punct .rbracket])) c.marks rest) (short : c.marks.length ≤ n)
    (proper : (ofList items).All Proper) : Parses g.arrayElements c rest (List.Forall₂ Same items) := by
  induction items generalizing c with
  | nil =>
    obtain ⟨commas, _, all, marks, commas', _, all', rfl, _, _, rfl, rfl⟩ := covers
    refine arrayElements_commas all marks fun between marks => arrayElements_commas all' marks fun last marks => ?_
    exact Parses.last (parses_take marks rfl fun after marks => parses_pure marks ⟨rfl, .nil⟩)
  | cons item items ih =>
    obtain ⟨commas, _, all, marks, covers⟩ := covers
    rw [marks, List.length_append] at short
    refine arrayElements_commas all marks fun start marks => ?_
    subst marks
    obtain ⟨between, first, behind⟩ := covers_behind_element covers
    obtain ⟨t, newline, more, marks, starts, shorter, -⟩ := first.starts proper.1 Kind.noConfusion
    have notNext : ∀ p : Punct, p.startsExpression = false →
        ∀ mark ∈ start.marks.head?, (Symbol.punct p).isSpelled mark.1 = false := by
      rw [marks]
      rintro p noStart mark ⟨⟩
      rw [Symbol.not_isSpelled_punct]
      rintro rfl
      exact Bool.noConfusion (starts.symm.trans noStart)
    have element : Stops true 2 between → Parses (g.assign true) start between (Same item) :=
      complete.assign true item start between first (by omega) proper.1 fun noIn => by cases noIn
    have shrinks : between.length < start.marks.length := by
      rw [marks, List.length_cons]
      omega
    rcases behind with ⟨newline, more, rfl, others⟩ | ⟨rfl, newline, rfl⟩
    · refine Parses.again (M := more) (P := fun found => ∃ v, found = [v] ∧ Same item v) ?_ ?_ ?_
      · refine parses_take_no (notNext .rbracket rfl) (parses_take_no (notNext .comma rfl) ?_)
        refine (element (Stops.cons_iff.mpr (Nat.lt_succ_self 1))).bind fun v after marks same => ?_
        exact parses_take marks rfl fun after marks => parses_pure marks ⟨rfl, v, rfl, same⟩
      · rw [List.length_cons] at shrinks
        omega
      · rintro _ after rfl ⟨v, rfl, same⟩
        rw [List.length_cons] at shrinks
        exact (ih others (by omega) proper.2).weaken fun vs all => .cons same all
    · refine Parses.last (parses_take_no (notNext .rbracket rfl) (parses_take_no (notNext .comma rfl) ?_))
      refine (element (Stops.cons_iff.mpr Nat.two_pos)).bind fun v after marks same => ?_
      refine parses_take_no (by simp [marks]) (parses_expect marks rfl fun after marks => ?_)
      exact parses_pure marks ⟨rfl, .cons same .nil⟩

theorem Complete.arrayLit (complete : Complete n n g) {s : Span} {elements : Tree (.list .assign)}
    (covers : Covers (Tree.arrayLit s elements).yield c.marks rest) (short : c.marks.length ≤ n + 1)
    (proper : elements.All Proper) : Parses g.arrayLit c rest (Same (Tree.arrayLit s elements)) := by
  obtain ⟨items, rfl⟩ := exists_ofList elements
  obtain ⟨_, _, opening, covers⟩ := covers.of_single rfl
  rw [slots_ofList] at covers
  rw [opening, List.length_cons] at short
  refine Parses.spanned (parses_require opening rfl fun between marks => ?_)
  subst marks
  refine (complete.arrayElements covers (by omega) proper).bind ?_
  exact fun elements after marks same => parses_pure marks fun span =>
    congrArg (Tree.arrayLit .zero) (Same.ofList same)

theorem Complete.arguments (complete : Complete n n g) {t : Node .arguments}
    (covers : Covers t.yield c.marks rest) (short : c.marks.length ≤ n + 1) (proper : t.All Proper) :
    Parses g.arguments c rest (Same t) := by
  cases t with
  | arguments s list =>
    obtain ⟨items, rfl⟩ := exists_ofList list
    obtain ⟨_, _, opening, covers⟩ := covers.of_single rfl
    obtain ⟨_, inside, _, _, rfl, rfl⟩ := covers.of_append
    rw [opening, List.length_cons] at short
    refine Parses.spanned (parses_require opening rfl fun between marks => ?_)
    obtain _ | ⟨first, others⟩ := items
    · cases inside
      exact parses_take marks rfl fun after marks => parses_pure marks fun span => rfl
    rw [← marks] at inside short
    have list : Covers (Tree.sequence .zero (ofList (first :: others))).yield between.marks _ := inside.single rfl
    obtain ⟨t, newline, more, marks, starts, -⟩ := list.starts ⟨rfl, proper.2⟩ Kind.noConfusion
    refine parses_take_no ?_ ?_
    · rw [marks]
      rintro mark ⟨⟩
      rw [Symbol.not_isSpelled_punct]
      rintro rfl
      cases starts
    · refine (complete.assignments true (List.cons_ne_nil _ _) inside (by omega) proper.2 (by simp)
        (Stops.cons_iff.mpr Nat.one_pos)).bind ?_
      intro list after marks same
      refine parses_expect marks rfl fun after marks => parses_pure marks fun span => ?_
      exact congrArg (Tree.arguments .zero) (Same.ofList same)

theorem Complete.index (complete : Complete n n g) {calls : Bool} {s : Span} {expr : Node .sequence}
    (covers : Covers (@Tree.index calls s expr).yield c.marks rest) (short : c.marks.length ≤ n + 1)
    (proper : expr.All Proper) : Parses g.index c rest (Same (@Tree.index calls s expr)) := by
  obtain ⟨_, _, opening, covers⟩ := covers.of_single rfl
  obtain ⟨_, inside, _, _, rfl, rfl⟩ := covers.of_append
  rw [opening, List.length_cons] at short
  refine Parses.spanned (parses_require opening rfl fun between marks => ?_)
  rw [← marks] at inside short
  refine (complete.expression inside (by omega) proper rfl).bind ?_
  intro expr' after marks same
  refine parses_expect marks rfl fun after marks => parses_pure marks fun span => ?_
  exact congrArg (Tree.index .zero) same

theorem anyName?_ofName (name : Bytes) : anyName? (.ofName name) = some name := by
  unfold Token.ofName
  split
  · rename_i w found
    exact congrArg some (Word.spelling_of_ofSpelling? found)
  · rfl

theorem point_parses {newline : Bool} {more : List Mark} (marks : c.marks = (.punct .dot, newline) :: more) :
    Parses point c more fun _ => True := by
  have dot : Parses (require (.punct .dot) >>= fun _ => pure ()) c more fun _ => True :=
    parses_require marks rfl fun after marks => parses_pure marks trivial
  refine dot.of_result ?_
  rw [point_result]
  exact result_eq_of_gives fun v after => by simp

theorem property_parses {calls : Bool} {s : Span} {own : Bytes}
    (covers : Covers (@Tree.property calls s own).yield c.marks rest) :
    Parses property c rest (Same (@Tree.property calls s own)) := by
  obtain ⟨_, _, dot, _, _, rfl, rfl⟩ := covers.of_single rfl
  refine Parses.spanned ((point_parses dot).bind fun _ between marks _ => ?_)
  exact parses_accept marks (anyName?_ofName own) fun after marks => parses_pure marks fun span => rfl

theorem arguments_fails (other : ∀ mark ∈ c.marks.head?, mark.1 ≠ .punct .lparen) : g.arguments.Fails c := by
  have missing : (require (.punct .lparen)).Fails c := by
    simpa using Cursor.forall_next? other
  exact spanned_fails.mpr (bind_fails.mpr (.inl missing))

theorem index_fails {calls : Bool} (other : ∀ mark ∈ c.marks.head?, mark.1 ≠ .punct .lbracket) :
    (g.index : Parser (Node (.modifier calls))).Fails c := by
  have missing : (require (.punct .lbracket)).Fails c := by
    simpa using Cursor.forall_next? other
  exact spanned_fails.mpr (bind_fails.mpr (.inl missing))

theorem property_fails {calls : Bool} (other : ∀ mark ∈ c.marks.head?, mark.1 ≠ .punct .dot) :
    (property : Parser (Node (.modifier calls))).Fails c := by
  have missing : (require (.punct .dot)).Fails c := by
    simpa using Cursor.forall_next? other
  have stuck : point.Fails c := (point_result c).trans missing
  exact spanned_fails.mpr (bind_fails.mpr (.inl stuck))

/-- How tight the tokens bind that go on with accesses, or with calls too. -/
def modifierRank (calls : Bool) : Nat := if calls then 15 else 16

theorem modifier_fails {calls : Bool} (stops : Stops allowIn (modifierRank calls) c.marks) :
    (g.modifier calls).Fails c := by
  cases calls with
  | false =>
    exact either_fails.mpr ⟨index_fails (stops.ne (Nat.le_refl 16)), property_fails (stops.ne (Nat.le_refl 16))⟩
  | true =>
    refine either_fails.mpr ⟨map_fails.mpr (arguments_fails (stops.ne (Nat.le_refl 15))), ?_⟩
    exact either_fails.mpr ⟨index_fails (stops.ne (Nat.le_succ 15)), property_fails (stops.ne (Nat.le_succ 15))⟩

theorem Complete.modifier (complete : Complete n n g) {calls : Bool} {t : Node (.modifier calls)}
    (covers : Covers t.yield c.marks rest) (short : c.marks.length ≤ n + 1) (proper : t.All Proper) :
    Parses (g.modifier calls) c rest (Same t) := by
  cases t with
  | ofArguments args =>
    refine (Parses.map ((complete.arguments (t := args) covers short proper).weaken ?_)).left
    exact fun v same => congrArg Tree.ofArguments same
  | index s expr =>
    have parses := complete.index covers short proper.2
    cases calls with
    | false => exact parses.left
    | true =>
      obtain ⟨_, _, opening, _⟩ := covers.of_single rfl
      refine Parses.right (map_fails.mpr (arguments_fails ?_)) parses.left
      simp [opening]
  | property s own =>
    have parses := property_parses covers
    obtain ⟨_, _, opening, _⟩ := covers.of_single rfl
    have noIndex : (g.index : Parser (Node (.modifier calls))).Fails c := index_fails (by simp [opening])
    cases calls with
    | false => exact parses.right noIndex
    | true => exact (parses.right noIndex).right (map_fails.mpr (arguments_fails (by simp [opening])))

theorem Complete.modifiers (complete : Complete n n g) {calls : Bool} {items : List (Node (.modifier calls))}
    (covers : Covers (ofList items).yield c.marks rest) (short : c.marks.length ≤ n + 1)
    (proper : (ofList items).All Proper) (stops : Stops allowIn (modifierRank calls) rest) :
    Parses (many (g.modifier calls)) c rest (List.Forall₂ Same items) := by
  rw [yield_ofList] at covers
  refine parses_many (F := fun _ => True) covers short ?_ ?_ trivial ?_
  · intro t member c between short covers _
    exact complete.modifier covers short (all_ofList.mp proper t member)
  · intro t member marks between covers
    obtain ⟨_, _, _, rfl, _, shorter, -⟩ := covers.starts (all_ofList.mp proper t member) Kind.noConfusion
    exact ⟨Nat.lt_succ_of_le shorter, trivial⟩
  · rintro c rfl
    exact modifier_fails stops

/-- A primary expression that is no instantiation does not start with `new`. -/
theorem Complete.target (complete : Complete n n g) {target : Node .primary} (base : target.isInstantiated = false)
    (covers : Covers target.yield c.marks rest) (short : c.marks.length ≤ n + 1) (proper : target.All Proper) :
    Parses (g.functionExpr <|> g.primary) c rest (Same target) ∧
      ∀ mark ∈ c.marks.head?, mark.1 ≠ .keyword .kwNew := by
  have noFunction : ∀ {t newline more}, c.marks = (t, newline) :: more → t ≠ .keyword .kwFunction →
      g.functionExpr.Fails c := by
    intro t newline more marks different
    exact g.functionExpr_fails (Cursor.forall_next? (by simpa [marks] using different))
  have single : ∀ {t newline node}, c.marks = (t, newline) :: rest → atom? t = some node →
      (∀ span, Same target (node span)) → t ≠ .keyword .kwFunction →
      Parses (g.functionExpr <|> g.primary) c rest (Same target) := by
    intro t newline node marks found same different
    exact Parses.right (noFunction marks different) (atom_parses marks found same).left
  have noAtom : ∀ {t newline more}, c.marks = (t, newline) :: more → atom? t = none → atom.Fails c := by
    intro t newline more marks missing
    exact atom_fails (Cursor.forall_next? (by simpa [marks] using missing))
  cases target with
  | thisExpr s =>
    obtain ⟨_, _, marks, rfl⟩ := covers.of_single rfl
    exact ⟨single marks rfl (fun _ => rfl) (by simp), by simp [marks]⟩
  | ident s own =>
    obtain ⟨_, _, marks, rfl⟩ := covers.of_single rfl
    exact ⟨single marks rfl (fun _ => rfl) (by simp), by simp [marks]⟩
  | nullLit s =>
    obtain ⟨_, _, marks, rfl⟩ := covers.of_single rfl
    exact ⟨single marks rfl (fun _ => rfl) (by simp), by simp [marks]⟩
  | boolLit s value =>
    cases value <;>
    · obtain ⟨_, _, marks, rfl⟩ := covers.of_single rfl
      exact ⟨single marks rfl (fun _ => rfl) (by simp), by simp [marks]⟩
  | numberLit s value =>
    obtain ⟨_, _, marks, rfl⟩ := covers.of_single rfl
    exact ⟨single marks rfl (fun _ => rfl) (by simp), by simp [marks]⟩
  | stringLit s value =>
    obtain ⟨_, _, marks, rfl⟩ := covers.of_single rfl
    exact ⟨single marks rfl (fun _ => rfl) (by simp), by simp [marks]⟩
  | arrayLit s elements =>
    obtain ⟨_, _, marks, _⟩ := covers.of_single rfl
    refine ⟨Parses.right (noFunction marks (by simp)) (Parses.right (noAtom marks rfl) ?_), by simp [marks]⟩
    exact (complete.arrayLit covers short proper.2).left
  | paren s expr =>
    obtain ⟨_, _, marks, _⟩ := covers.of_single rfl
    have noArray : g.arrayLit.Fails c := g.arrayLit_fails (Cursor.forall_next? (by simp [marks]))
    refine ⟨Parses.right (noFunction marks (by simp)) (Parses.right (noAtom marks rfl) ?_), by simp [marks]⟩
    exact (complete.paren covers short proper.2).right noArray
  | funcExpr s own params body =>
    obtain ⟨_, _, marks, _⟩ := covers.of_single rfl
    exact ⟨(complete.functionExpr covers short proper.2).left, by simp [marks]⟩
  | instantiated node => cases base

theorem Complete.member (complete : Complete n n g) {s : Span} {target : Node .primary}
    {modifiers : Tree (.list (.modifier false))} (base : target.isInstantiated = false)
    (covers : Covers (Tree.member s target modifiers).yield c.marks rest) (short : c.marks.length ≤ n + 1)
    (proper : (Tree.member s target modifiers).All Proper) (stops : Stops allowIn 16 rest) :
    Parses g.member c rest (Same (Tree.member s target modifiers)) ∧
      ∀ mark ∈ c.marks.head?, mark.1 ≠ .keyword .kwNew := by
  obtain ⟨items, rfl⟩ := exists_ofList modifiers
  obtain ⟨between, first, others⟩ := (covers.of_single rfl).of_append
  obtain ⟨parses, noNew⟩ := complete.target base first short proper.2.1
  refine ⟨Parses.spanned (parses.bind ?_), noNew⟩
  rintro target' after rfl same
  have shorter := first.length_le
  refine (complete.modifiers others (by omega) proper.2.2 stops).bind ?_
  intro list last marks all
  exact parses_pure marks fun span => congrArg₂ (Tree.member .zero) same (Same.ofList all)

/-- What a left-hand side reads in front of a call: `new`s, a member expression, and the argument lists that
belong to the `new`s, with `starts` more `new`s that came before. -/
def spine (g : Grammar) (starts : List Nat) : Parser (List Nat × Node .member) := do
  let news ← news
  let first ← g.member
  g.pairNews (news.reverse ++ starts) first

/-- A `new` in front is one that came before. -/
theorem spine_new {Q : List Nat × Node .member → Prop} {starts : List Nat} {newline : Bool} {more : List Mark}
    (marks : c.marks = (.keyword .kwNew, newline) :: more)
    (next : ∀ (start : Nat) (after : Cursor), after.marks = more → Parses (g.spine (start :: starts)) after rest Q) :
    Parses (g.spine starts) c rest Q := by
  obtain ⟨after, step, marks⟩ := Cursor.exists_steps_marks marks
  obtain ⟨result, last, run, marks', holds⟩ := next c.offset after marks
  simp only [spine, bind_gives] at run
  obtain ⟨starts', behind, newsRun, paired⟩ := run
  have taken : (take (.word .kwNew)).Gives c true after := by
    simpa using step
  have length := step.rest_length
  have allNews : news.Gives c ([c.offset] ++ starts') behind := by
    refine loop_gives_again ?_ (by omega) newsRun
    rw [bind_gives]
    refine ⟨c.offset, c, offset_gives.mpr ⟨rfl, rfl⟩, ?_⟩
    rw [bind_gives]
    exact ⟨true, after, taken, by simp⟩
  refine ⟨result, last, ?_, marks', holds⟩
  simp only [spine, bind_gives]
  refine ⟨[c.offset] ++ starts', behind, allNews, ?_⟩
  simpa using paired

/-- A `new` that came before takes the argument list behind its target, and the accesses behind that. -/
theorem Complete.pairNews (complete : Complete n n g) {Q : List Nat × Node .member → Prop} {start : Nat}
    {starts : List Nat} {target target' : Node .member} {between : List Mark} (s s' : Span) (args : Node .arguments)
    (modifiers : Tree (.list (.modifier false))) (same : Same target target')
    (covers : Covers (args.yield ++ modifiers.yield) c.marks between) (short : c.marks.length ≤ n + 1)
    (properArgs : args.All Proper) (properModifiers : modifiers.All Proper) (stops : Stops allowIn 16 between)
    (next : ∀ (t : Node .member) (after : Cursor), Same (match modifiers with
        | .nil => .ofInstantiation (.instantiation s target args)
        | modifiers => .member s' (.instantiated (.instantiation s target args)) modifiers) t →
      after.marks = between → Parses (g.pairNews starts t) after rest Q) :
    Parses (g.pairNews (start :: starts) target') c rest Q := by
  obtain ⟨items, rfl⟩ := exists_ofList modifiers
  obtain ⟨middle, first, others⟩ := covers.of_append
  have shorter := first.length_le
  refine Parses.present (complete.arguments first short properArgs) ?_
  rintro args' behind rfl sameArgs
  refine parses_reached fun stop => (complete.modifiers others (by omega) properModifiers stops).bind ?_
  intro list last marks all
  have instantiation : ∀ s', Same (Tree.instantiation s target args) (Tree.instantiation s' target' args') :=
    fun s' => congrArg₂ (Tree.instantiation .zero) same sameArgs
  cases all with
  | nil => exact next _ _ (congrArg Tree.ofInstantiation (instantiation _)) marks
  | cons head tail =>
    refine parses_reached fun stop' => next _ _ ?_ marks
    exact congrArg₂ (Tree.member .zero) (congrArg Tree.instantiated (instantiation _)) (Same.ofList (.cons head tail))

theorem stops_of_arguments (allowIn : Bool) {args : Node .arguments} {marks : List Mark} (covers : Covers args.yield marks rest) :
    Stops allowIn 16 marks := by
  cases args with
  | arguments s list =>
    obtain ⟨_, _, rfl, _⟩ := covers.of_single rfl
    exact Stops.cons_iff.mpr (Nat.lt_succ_self 15)

/-- Without a `new` in front there is only a member expression to read. -/
theorem spine_base {Q : List Nat × Node .member → Prop} {starts : List Nat}
    (noNew : ∀ mark ∈ c.marks.head?, mark.1 ≠ .keyword .kwNew)
    (next : Parses (g.member >>= g.pairNews starts) c rest Q) : Parses (g.spine starts) c rest Q := by
  obtain ⟨result, last, run, marks, holds⟩ := next
  refine ⟨result, last, ?_, marks, holds⟩
  exact bind_gives.mpr ⟨[], c, news_gives_nil (Cursor.forall_next? noNew), run⟩

/-- A member expression with a `new` in front is an instantiation with the accesses behind it. -/
theorem exists_instantiation {t : Node .member} {count : Nat} {marks : List Mark} (some : t.leadingNews = count + 1)
    (covers : Covers t.yield marks rest) (proper : t.All Proper) :
    ∃ (s s' : Span) (target : Node .member) (args : Node .arguments) (modifiers : Tree (.list (.modifier false))),
      t = (match modifiers with
        | .nil => .ofInstantiation (.instantiation s target args)
        | modifiers => .member s' (.instantiated (.instantiation s target args)) modifiers) ∧
      target.leadingNews = count ∧ target.All Proper ∧ args.All Proper ∧ modifiers.All Proper ∧
      Covers (.word .kwNew :: (target.yield ++ (args.yield ++ modifiers.yield))) marks rest := by
  cases t with
  | ofInstantiation node =>
    cases node with
    | instantiation s target args =>
      refine ⟨s, s, target, args, .nil, rfl, Nat.succ.inj some, proper.2.1, proper.2.2, trivial, ?_⟩
      rw [show (Tree.nil : Tree (.list (.modifier false))).yield = [] from rfl, List.append_nil]
      exact covers.of_single rfl
  | member s' object modifiers =>
    cases object with
    | instantiated node =>
      cases node with
      | instantiation s target args =>
        cases modifiers with
        | nil => cases proper.1 rfl
        | cons head tail =>
          refine ⟨s, s', target, args, .cons head tail, rfl, Nat.succ.inj some, proper.2.1.2.1, proper.2.1.2.2,
            proper.2.2, ?_⟩
          obtain ⟨_, front, behind⟩ := (covers.of_single rfl).of_append
          rw [← List.append_assoc, ← List.cons_append]
          exact (front.of_single rfl).append behind
    | _ => cases some

/-- A member expression is read as the pairing of its `new`s from the inside out. The induction is on their
number. -/
theorem Complete.spine (complete : Complete n n g) {Q : List Nat × Node .member → Prop} :
    ∀ {count : Nat} {t : Node .member} {starts : List Nat} {c : Cursor} {between rest : List Mark},
      t.leadingNews = count → Covers t.yield c.marks between → c.marks.length ≤ n + 1 → t.All Proper →
      Stops allowIn 16 between →
      (∀ (t' : Node .member) (after : Cursor), Same t t' → after.marks = between →
        Parses (g.pairNews starts t') after rest Q) → Parses (g.spine starts) c rest Q := by
  intro count
  induction count with
  | zero =>
    intro t starts c between rest none covers short proper stops next
    cases t with
    | ofInstantiation node => cases node with | instantiation => cases none
    | member s target modifiers =>
      have base : target.isInstantiated = false := by
        cases target with
        | instantiated node => cases node with | instantiation => cases none
        | _ => rfl
      obtain ⟨parses, noNew⟩ := complete.member base covers short proper stops
      exact spine_base noNew (parses.bind fun t' last marks same => next t' last same marks)
  | succ count ih =>
    intro t starts c between rest some covers short proper stops next
    obtain ⟨s, s', target, args, modifiers, rfl, inner, properTarget, properArgs, properModifiers, opened⟩ :=
      exists_instantiation some covers proper
    obtain ⟨_, _, start, opened⟩ := opened
    obtain ⟨_, first, behind⟩ := opened.of_append
    have shorter := first.length_le
    rw [start, List.length_cons] at short
    refine spine_new start fun _ after marks => ?_
    subst marks
    refine ih inner first (by omega) properTarget ?_ ?_
    · obtain ⟨_, arguments, _⟩ := behind.of_append
      exact stops_of_arguments allowIn arguments
    · rintro target' after same rfl
      exact complete.pairNews s s' args modifiers same behind (by omega) properArgs properModifiers stops next

/-- What a left-hand side reads once its `new`s are paired. -/
def lhsRest (g : Grammar) (paired : List Nat × Node .member) : Parser (Span → Node .lhs) :=
  match paired.1 with
  | [] => do
    match ← optional g.arguments with
    | some args =>
      let modifiers ← many (g.modifier true)
      return fun span => .call span paired.2 args (.ofList modifiers)
    | none => return fun span => .newExpr span 0 paired.2
  | unpaired => return fun span => .newExpr span unpaired.length paired.2

theorem lhs_of_spine {t : Node .lhs}
    (parses : Parses (g.spine [] >>= g.lhsRest) c rest fun build => ∀ span, Same t (build span)) :
    Parses g.lhs c rest (Same t) := by
  refine Parses.spanned (parses.of_result (result_eq_of_gives fun build after => ?_))
  simp only [spine, bind_gives, List.append_nil]
  constructor
  · rintro ⟨news, behind, newsRun, first, next, memberRun, result, last, paired, run⟩
    refine ⟨result, last, ⟨news, behind, newsRun, first, next, memberRun, paired⟩, ?_⟩
    obtain ⟨_ | ⟨start, outer⟩, target⟩ := result <;> exact run
  · rintro ⟨result, last, ⟨news, behind, newsRun, first, next, memberRun, paired⟩, run⟩
    refine ⟨news, behind, newsRun, first, next, memberRun, result, last, paired, ?_⟩
    obtain ⟨_ | ⟨start, outer⟩, target⟩ := result <;> exact run

/-- A member expression behind `new`s without arguments. -/
theorem Complete.newSpine (complete : Complete n n g) {Q : List Nat × Node .member → Prop} {t : Node .member}
    {between : List Mark} (proper : t.All Proper) (stops : Stops allowIn 16 between) :
    ∀ {count : Nat} {starts : List Nat} {c : Cursor},
      Covers (List.replicate count (.word .kwNew) ++ t.yield) c.marks between → c.marks.length ≤ n + 1 →
      (∀ (starts' : List Nat) (t' : Node .member) (after : Cursor), starts'.length = count + starts.length →
        Same t t' → after.marks = between → Parses (g.pairNews starts' t') after rest Q) →
      Parses (g.spine starts) c rest Q := by
  intro count
  induction count with
  | zero =>
    intro starts c covers short next
    refine complete.spine rfl covers short proper stops ?_
    exact fun t' after same marks => next starts t' after (Nat.zero_add _).symm same marks
  | succ count ih =>
    intro starts c covers short next
    obtain ⟨_, _, start, covers⟩ := covers
    rw [start, List.length_cons] at short
    refine spine_new start fun start after marks => ?_
    subst marks
    refine ih covers (by omega) ?_
    intro starts' t' after length same marks
    rw [List.length_cons] at length
    exact next starts' t' after (by omega) same marks

theorem Complete.lhs (complete : Complete n n g) : Completes (n + 1) allowIn 15 g.lhs := by
  intro t c rest covers short proper inFree stops
  cases t with
  | call s callee args modifiers =>
    obtain ⟨items, rfl⟩ := exists_ofList modifiers
    obtain ⟨between, first, behind⟩ := (covers.of_single rfl).of_append
    obtain ⟨_, arguments, accesses⟩ := behind.of_append
    have shorter := first.length_le
    have shorter' := arguments.length_le
    refine lhs_of_spine (Parses.bind (M := between) (Q := fun result => result.1 = [] ∧ Same callee result.2)
      ?_ ?_)
    · refine complete.spine rfl first short proper.2.1 (stops_of_arguments allowIn arguments) ?_
      exact fun t' after same marks => parses_pure marks ⟨rfl, same⟩
    · rintro ⟨_, target⟩ after rfl ⟨rfl, same⟩
      refine Parses.present (complete.arguments arguments (by omega) proper.2.2.1) ?_
      rintro args' next rfl sameArgs
      refine (complete.modifiers accesses (by omega) proper.2.2.2 stops).bind ?_
      intro list last marks all
      refine parses_pure marks fun span => ?_
      simp only [Same, erase] at same sameArgs ⊢
      rw [same, sameArgs, show (ofList items).erase = (ofList list).erase from Same.ofList all]
  | newExpr s count target =>
    refine lhs_of_spine (Parses.bind (M := rest)
      (Q := fun result => result.1.length = count ∧ Same target result.2) ?_ ?_)
    · refine complete.newSpine proper.2 (stops.mono (Nat.le_succ 15)) (covers.of_single rfl) short ?_
      intro starts t' after length same marks
      cases starts with
      | nil => exact parses_pure marks ⟨length, same⟩
      | cons start outer =>
        refine Parses.absent (arguments_fails ?_) (parses_pure marks ⟨length, same⟩)
        rw [marks]
        exact stops.ne (Nat.le_refl 15)
    · rintro ⟨starts, target'⟩ after marks ⟨rfl, same⟩
      cases starts with
      | nil =>
        refine Parses.absent (arguments_fails ?_) (parses_pure marks fun span => ?_)
        · rw [marks]
          exact stops.ne (Nat.le_refl 15)
        · exact congrArg (Tree.newExpr .zero 0) same
      | cons start outer =>
        exact parses_pure marks fun span => congrArg (Tree.newExpr .zero (outer.length + 1)) same

theorem UpdateOp.ofToken?_of_binds {t : Token} (loose : t.binds allowIn < 14) : UpdateOp.ofToken? t = none := by
  cases found : UpdateOp.ofToken? t with
  | none => rfl
  | some op =>
    rw [← UpdateOp.token_of_ofToken? found] at loose
    cases op <;> exact absurd loose (Nat.lt_irrefl 14)

theorem Complete.update (complete : Complete n n g) : Completes (n + 1) allowIn 14 g.update := by
  intro t c rest covers short proper inFree stops
  cases t with
  | update s operand op =>
    obtain ⟨between, first, behind⟩ := (covers.of_single rfl).of_append
    have follow : Stops allowIn 15 between := by
      cases op with
      | none =>
        cases behind
        exact stops.mono (Nat.le_succ 14)
      | some op =>
        obtain ⟨_, _, _, rfl, _⟩ := behind
        cases op <;> exact Stops.cons_iff.mpr (Nat.lt_succ_self 14)
    refine Parses.spanned ((complete.lhs operand c between first short proper.2
      (fun _ => by cases operand <;> rfl) follow).bind ?_)
    rintro operand' after marks same
    have built : ∀ span, Same (Tree.update s operand op) (Tree.update span operand' op) :=
      fun span => congrArg (Tree.update .zero · op) same
    cases op with
    | none =>
      cases behind
      refine parses_newlineAhead rfl ?_
      split
      · exact parses_pure marks built
      · refine parses_accept_none ?_ (parses_pure marks built)
        rw [marks]
        exact fun mark next => UpdateOp.ofToken?_of_binds (stops mark next)
    | some op =>
      obtain ⟨sameLine, newline, _, rfl, rfl⟩ := behind
      refine parses_sameLine ?_ ?_
      · rwa [marks]
      · exact parses_accept marks (UpdateOp.ofToken?_token op) fun last marks => parses_pure marks built

/-- Unary operators are read up to a left-hand side. -/
theorem unaryOps_parses {ops : List UnaryOp} {c : Cursor}
    (covers : Covers (ops.map fun op => .token op.token) c.marks rest)
    (stops : ∀ mark ∈ rest.head?, UnaryOp.ofToken? mark.1 = none) :
    Parses (manyTokens UnaryOp.ofToken?) c rest (ops = ·) := by
  induction ops generalizing c with
  | nil =>
    cases covers
    exact ⟨[], c, manyTokens_gives_nil (Cursor.forall_next? stops), rfl, rfl⟩
  | cons op ops ih =>
    obtain ⟨_, _, marks, covers⟩ := covers
    obtain ⟨after, step, rfl⟩ := Cursor.exists_steps_marks marks
    obtain ⟨_, last, run, marks', rfl⟩ := ih covers
    exact ⟨op :: ops, last, manyTokens_gives_cons step (UnaryOp.ofToken?_token op) run, marks', rfl⟩

theorem Complete.unary (complete : Complete n n g) : Completes (n + 1) allowIn 14 g.unary := by
  intro t c rest covers short proper inFree stops
  cases t with
  | unary s ops operand =>
    obtain ⟨between, first, behind⟩ := (covers.of_single rfl).of_append
    have shorter := first.length_le
    have follow : ∀ mark ∈ between.head?, UnaryOp.ofToken? mark.1 = none := by
      obtain ⟨t, _, _, rfl, starts, -⟩ := behind.starts proper.2 Kind.noConfusion
      rintro mark ⟨⟩
      exact Option.isNone_iff_eq_none.mp (Bool.and_eq_true_iff.mp starts).2
    refine Parses.spanned ((unaryOps_parses first follow).bind ?_)
    rintro _ after rfl rfl
    refine (complete.update operand after rest behind (by omega) proper.2 (fun _ => by cases operand; rfl) stops).bind
      ?_
    exact fun operand' last marks same => parses_pure marks fun span => congrArg (Tree.unary .zero ops) same

/-- An operation begins with an operator that binds as tight as its tier. -/
theorem stops_of_operation {tier : Tier} {t : Node (.operation tier)} {marks : List Mark}
    (covers : Covers t.yield marks rest) (inFree : allowIn = false → t.isInFree = true) :
    Stops allowIn (tier.rank + 1) marks := by
  cases t with
  | operation _ op start right =>
    obtain ⟨_, _, rfl, _⟩ := covers.of_single rfl
    have allowed : allowIn = false → op.1 ≠ .isIn :=
      fun noIn => of_decide_eq_true (Bool.and_eq_true_iff.mp (inFree noIn)).1
    rw [Stops.cons_iff, BinaryOp.binds_token op.1 allowed, op.2]
    exact Nat.lt_succ_self _

theorem operation_parses {tier : Tier} {operand : Parser (Node tier.operand)} {t : Node (.operation tier)}
    (each : Completes n allowIn (tier.rank + 1) operand) (covers : Covers t.yield c.marks rest)
    (short : c.marks.length ≤ n) (proper : t.All Proper) (inFree : allowIn = false → t.isInFree = true)
    (stops : Stops allowIn (tier.rank + 1) rest) : Parses (operation tier allowIn operand) c rest (Same t) := by
  cases t with
  | operation _ op start right =>
    obtain ⟨_, _, marks, covers⟩ := covers.of_single rfl
    have allowed : allowIn = false → op.1 ≠ .isIn :=
      fun noIn => of_decide_eq_true (Bool.and_eq_true_iff.mp (inFree noIn)).1
    rw [marks, List.length_cons] at short
    refine parses_offset fun start => parses_accept marks (Tier.opOf?_token op allowed) fun after marks => ?_
    subst marks
    refine (each right after rest covers (by omega) proper (fun noIn => (Bool.and_eq_true_iff.mp (inFree noIn)).2)
      stops).bind ?_
    exact fun right' last marks same => parses_pure marks (congrArg (Tree.operation tier op 0) same)

theorem operation_fails {tier : Tier} {operand : Parser (Node tier.operand)} (stops : Stops allowIn tier.rank c.marks) :
    (operation tier allowIn operand).Fails c := by
  have missing : (accept (tier.opOf? allowIn)).Gives c none c :=
    accept_gives_none.mpr ⟨Cursor.forall_next? fun mark next => Tier.opOf?_of_binds (stops mark next), rfl⟩
  refine bind_fails.mpr (.inr ⟨_, c, offset_gives.mpr ⟨rfl, rfl⟩, ?_⟩)
  exact bind_fails.mpr (.inr ⟨none, c, missing, fail_fails.mpr trivial⟩)

/-- A tier is read back if its operands are. -/
theorem level_completes {tier : Tier} {operand : Parser (Node tier.operand)}
    (each : Completes n allowIn (tier.rank + 1) operand) :
    Completes n allowIn tier.rank (level tier allowIn operand) := by
  intro t c rest covers short proper inFree stops
  cases t with
  | level s _ head operations =>
    obtain ⟨items, rfl⟩ := exists_ofList operations
    obtain ⟨between, first, others⟩ := (covers.of_single rfl).of_append
    have free : ∀ t ∈ items, allowIn = false → t.isInFree = true :=
      fun t member noIn => isInFree_ofList.mp (Bool.and_eq_true_iff.mp (inFree noIn)).2 t member
    have shorter := first.length_le
    have others : Covers (items.map yield).flatten between rest := by rwa [← yield_ofList]
    have follow : Stops allowIn (tier.rank + 1) between := by
      cases items with
      | nil =>
        cases others
        exact stops.mono (Nat.le_succ _)
      | cons item items =>
        obtain ⟨_, operation, _⟩ := others.of_append
        exact stops_of_operation operation (free item List.mem_cons_self)
    refine Parses.spanned ((each head c between first short proper.2.1
      (fun noIn => (Bool.and_eq_true_iff.mp (inFree noIn)).1) follow).bind ?_)
    rintro head' after rfl same
    have parses : Parses (many (operation tier allowIn operand)) after rest (List.Forall₂ Same items) := by
      refine parses_many (F := Stops allowIn (tier.rank + 1)) others (Nat.le_trans shorter short) ?_ ?_
        (stops.mono (Nat.le_succ _)) ?_
      · intro t member c between short covers follow
        exact operation_parses each covers short (all_ofList.mp proper.2.2 t member) (free t member) follow
      · intro t member marks between covers
        obtain ⟨_, _, _, same, _, shorter, -⟩ := covers.starts (all_ofList.mp proper.2.2 t member) Kind.noConfusion
        refine ⟨?_, stops_of_operation covers (free t member)⟩
        rw [same]
        exact Nat.lt_succ_of_le shorter
      · rintro c rfl
        exact operation_fails stops
    refine parses.bind fun list last marks all => parses_pure marks fun span => ?_
    exact congrArg₂ (Tree.level .zero tier) same (Same.ofList all)

theorem Complete.logicalOr (complete : Complete n n g) : Completes (n + 1) allowIn 4 (g.logicalOr allowIn) :=
  level_completes <| level_completes <| level_completes <| level_completes <| level_completes <|
    level_completes <| level_completes <| level_completes <| level_completes <| level_completes complete.unary

/-- Without a conditional, an assignment operator may follow. -/
theorem Complete.plain (complete : Complete n n g) {s : Span} {value : Node (.tier .logicalOr)}
    (covers : Covers (Tree.plain s value).yield c.marks rest) (short : c.marks.length ≤ n + 1)
    (proper : value.All Proper) (inFree : allowIn = false → value.isInFree = true) (stops : Stops allowIn 3 rest) :
    Parses (g.cond allowIn) c rest (Same (Tree.plain s value)) := by
  refine Parses.spanned ((complete.logicalOr value c rest covers short proper inFree
    (stops.mono (Nat.le_succ 3))).bind ?_)
  intro value' after marks same
  refine parses_take_no ?_ (parses_pure marks fun span => congrArg (Tree.plain .zero) same)
  rw [marks]
  intro mark next
  rw [Symbol.not_isSpelled_punct]
  exact stops.ne (u := .punct .question) (Nat.le_refl 3) mark next

theorem Complete.cond (complete : Complete n n g) : Completes (n + 1) allowIn 2 (g.cond allowIn) := by
  intro t c rest covers short proper inFree stops
  cases t with
  | plain s value => exact complete.plain covers short proper.2 inFree (stops.mono (Nat.le_succ 2))
  | ternary s test yes no =>
    obtain ⟨_, first, _, _, rfl, behind⟩ := (covers.of_single rfl).of_append
    obtain ⟨_, second, _, _, rfl, third⟩ := behind.of_append
    have shorter := first.length_le
    have shorter' := second.length_le
    rw [List.length_cons] at shorter shorter'
    have free : allowIn = false → test.isInFree = true ∧ no.isInFree = true :=
      fun noIn => Bool.and_eq_true_iff.mp (inFree noIn)
    refine Parses.spanned ((complete.logicalOr test c _ first short proper.2.1 (fun noIn => (free noIn).1)
      (Stops.cons_iff.mpr (Nat.lt_succ_self 3))).bind ?_)
    intro test' after marks sameTest
    refine parses_take marks rfl fun after marks => ?_
    subst marks
    refine (complete.assign true yes after _ second (by omega) proper.2.2.1 (fun noIn => by cases noIn)
      (Stops.cons_iff.mpr Nat.two_pos)).bind ?_
    intro yes' after marks sameYes
    refine parses_expect marks rfl fun after marks => ?_
    subst marks
    refine (complete.assign allowIn no after rest third (by omega) proper.2.2.2 (fun noIn => (free noIn).2)
      stops).bind ?_
    intro no' last marks sameNo
    refine parses_pure marks fun span => ?_
    simp only [Same, erase] at sameTest sameYes sameNo ⊢
    rw [sameTest, sameYes, sameNo]

theorem yield_plain (s : Span) (value : Node (.tier .logicalOr)) : (Tree.plain s value).yield = value.yield := rfl

/-- A left-hand side as an expression of the loosest tier. -/
@[irreducible] def tierOf (lhs : Node .lhs) : Node (.tier .logicalOr) :=
  .level .zero .logicalOr (.level .zero .logicalAnd (.level .zero .bitOr (.level .zero .bitXor
    (.level .zero .bitAnd (.level .zero .equality (.level .zero .relational (.level .zero .shift
    (.level .zero .additive (.level .zero .multiplicative (.unary .zero [] (.update .zero lhs none))
      .nil) .nil) .nil) .nil) .nil) .nil) .nil) .nil) .nil) .nil

theorem bareLhs?_tierOf (lhs : Node .lhs) : (tierOf lhs).bareLhs? = some lhs := by
  unfold tierOf
  rfl

theorem isInFree_tierOf (lhs : Node .lhs) : (tierOf lhs).isInFree = true := by
  unfold tierOf
  rfl

theorem all_tierOf {lhs : Node .lhs} (proper : lhs.All Proper) : (tierOf lhs).All Proper := by
  simp [tierOf, All, Proper, proper]

/-- A left-hand side is read as a bare expression. -/
theorem Complete.bareLhs (complete : Complete n n g) {lhs : Node .lhs} (covers : Covers lhs.yield c.marks rest)
    (short : c.marks.length ≤ n + 1) (proper : lhs.All Proper) (stops : Stops allowIn 3 rest) :
    Parses (g.cond allowIn) c rest fun value => ∃ lhs', value.bareLhs? = some lhs' ∧ Same lhs lhs' := by
  rw [← (bareLhs?_good (bareLhs?_tierOf lhs)).1, ← yield_plain .zero] at covers
  have parses := complete.plain covers short (all_tierOf proper) (fun _ => isInFree_tierOf lhs) stops
  refine parses.weaken fun value same => ?_
  have found : value.bareLhs?.map erase = some lhs.erase := by
    rw [← bareLhs?_erase, ← same, bareLhs?_erase]
    exact congrArg (Option.map erase) (bareLhs?_tierOf lhs)
  obtain ⟨lhs', bare, same⟩ := Option.map_eq_some_iff.mp found
  exact ⟨lhs', bare, same.symm⟩

theorem Complete.assignExpr (complete : Complete n n g) (allowIn : Bool) :
    Completes (n + 1) allowIn 2 (g.assignExpr allowIn) := by
  intro t c rest covers short proper inFree stops
  cases t with
  | assign s targets value =>
    cases targets with
    | nil =>
      refine Parses.spanned ((complete.cond value c rest (covers.of_single rfl) short proper.2.2 inFree stops).bind ?_)
      intro value' after marks same
      have built : ∀ span, Same (Tree.assign s .nil value) (Tree.assign span .nil value') :=
        fun span => congrArg (Tree.assign .zero .nil) same
      split
      · exact parses_pure marks built
      · refine parses_accept_none ?_ (parses_pure marks built)
        rw [marks]
        exact fun mark next => AssignOp.ofToken?_of_binds (stops mark next)
    | cons first targets =>
      cases first with
      | target lhs op =>
        have covers : Covers (((lhs.yield ++ [.token op.token]) ++ targets.yield) ++ value.yield) c.marks rest :=
          covers.of_single rfl
        rw [List.append_assoc, List.append_assoc] at covers
        obtain ⟨_, first, _, _, rfl, behind⟩ := covers.of_append
        have shorter := first.length_le
        rw [List.length_cons] at shorter
        refine Parses.spanned ((complete.bareLhs first short proper.2.1.1 ?_).bind ?_)
        · rw [Stops.cons_iff, AssignOp.binds_token]
          exact Nat.lt_succ_self 2
        · rintro value' after marks ⟨lhs', bare, same⟩
          rw [bare]
          refine parses_accept marks (AssignOp.ofToken?_token op) fun after marks => ?_
          subst marks
          have others : Covers (Tree.assign s targets value).yield after.marks rest := behind.single rfl
          refine (complete.assign allowIn _ after rest others (by omega) ⟨trivial, proper.2.1.2, proper.2.2⟩ inFree
            stops).bind ?_
          intro rest' last marks sameRest
          refine parses_pure marks fun span => ?_
          rw [Same, addTarget_erase, ← same, ← sameRest]
          rfl

end Expressions

end Grammar

end EcmaFold
