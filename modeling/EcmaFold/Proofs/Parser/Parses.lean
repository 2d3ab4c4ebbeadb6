import EcmaFold.Proofs.Parser.Follow
import EcmaFold.Proofs.Parser.Reads

/-!
What a parser has to accept. A parser parses, from a cursor up to a rest of the marks, a value with a property
when it succeeds with such a value and leaves exactly that rest. Each combinator has a rule, so that a
production is proved by walking along the slots of its tree.
-/

namespace EcmaFold

theorem Cursor.exists_steps_marks {c : Cursor} {t : Token} {newline : Bool} {more : List Mark}
    (marks : c.marks = (t, newline) :: more) : ∃ after, c.Steps t after ∧ after.marks = more := by
  obtain ⟨stop, _ | ⟨⟨token, newline', span⟩, rest⟩⟩ := c
  · cases marks
  · cases marks
    exact ⟨⟨span.stop, rest⟩, ⟨_, span, rest, rfl, rfl⟩, rfl⟩

theorem Cursor.forall_next? {c : Cursor} {P : Token → Prop} (first : ∀ mark ∈ c.marks.head?, P mark.1) :
    ∀ t ∈ c.next?, P t := by
  intro t next
  rw [Cursor.next?_eq_marks, Option.mem_def, Option.map_eq_some_iff] at next
  obtain ⟨mark, atHead, rfl⟩ := next
  exact first mark atHead

namespace Parser

variable {α β : Type}

/-- The parser succeeds at the cursor with a value of the property and leaves the marks `rest`. -/
def Parses (p : Parser α) (c : Cursor) (rest : List Mark) (Q : α → Prop) : Prop :=
  ∃ v after, p.Gives c v after ∧ after.marks = rest ∧ Q v

variable {c : Cursor} {M more rest : List Mark} {Q : α → Prop} {S : β → Prop} {symbol : Symbol}
  {newline : Bool}

theorem Parses.weaken {p : Parser α} {Q' : α → Prop} (parses : Parses p c rest Q) (weaker : ∀ v, Q v → Q' v) :
    Parses p c rest Q' := by
  obtain ⟨v, after, run, marks, holds⟩ := parses
  exact ⟨v, after, run, marks, weaker v holds⟩

theorem Parses.of_result {p q : Parser α} (parses : Parses p c rest Q) (same : (q c).result = (p c).result) :
    Parses q c rest Q := by
  obtain ⟨v, after, run, marks, holds⟩ := parses
  exact ⟨v, after, same.trans run, marks, holds⟩

theorem parses_pure {v : α} (marks : c.marks = rest) (holds : Q v) : Parses (pure v) c rest Q :=
  ⟨v, c, pure_gives.mpr ⟨rfl, rfl⟩, marks, holds⟩

theorem Parses.bind {p : Parser α} {f : α → Parser β} (first : Parses p c M Q)
    (next : ∀ v after, after.marks = M → Q v → Parses (f v) after rest S) : Parses (p >>= f) c rest S := by
  obtain ⟨v, after, run, marks, holds⟩ := first
  obtain ⟨w, last, run', marks', holds'⟩ := next v after marks holds
  exact ⟨w, last, bind_gives.mpr ⟨v, after, run, run'⟩, marks', holds'⟩

theorem Parses.map {p : Parser α} {f : α → β} (parses : Parses p c rest fun v => S (f v)) :
    Parses (f <$> p) c rest S := by
  obtain ⟨v, after, run, marks, holds⟩ := parses
  exact ⟨f v, after, map_gives.mpr ⟨v, run, rfl⟩, marks, holds⟩

theorem Parses.left {p q : Parser α} (parses : Parses p c rest Q) : Parses (p <|> q) c rest Q := by
  obtain ⟨v, after, run, marks, holds⟩ := parses
  exact ⟨v, after, either_gives.mpr (.inl run), marks, holds⟩

theorem Parses.right {p q : Parser α} (stuck : p.Fails c) (parses : Parses q c rest Q) :
    Parses (p <|> q) c rest Q := by
  obtain ⟨v, after, run, marks, holds⟩ := parses
  exact ⟨v, after, either_gives.mpr (.inr ⟨stuck, run⟩), marks, holds⟩

theorem Parses.present {p : Parser α} {f : Option α → Parser β} (parses : Parses p c M Q)
    (next : ∀ v after, after.marks = M → Q v → Parses (f (some v)) after rest S) :
    Parses (optional p >>= f) c rest S := by
  obtain ⟨v, after, run, marks, holds⟩ := parses
  obtain ⟨w, last, run', marks', holds'⟩ := next v after marks holds
  have found : (optional p).Gives c (some v) after := optional_gives.mpr (.inl ⟨v, rfl, run⟩)
  exact ⟨w, last, bind_gives.mpr ⟨some v, after, found, run'⟩, marks', holds'⟩

theorem Parses.absent {p : Parser α} {f : Option α → Parser β} (stuck : p.Fails c)
    (next : Parses (f none) c rest S) : Parses (optional p >>= f) c rest S := by
  obtain ⟨w, last, run, marks, holds⟩ := next
  have missing : (optional p).Gives c none c := optional_gives.mpr (.inr ⟨rfl, stuck, rfl⟩)
  exact ⟨w, last, bind_gives.mpr ⟨none, c, missing, run⟩, marks, holds⟩

theorem Parses.some {p : Parser α} (parses : Parses p c rest Q) :
    Parses (optional p) c rest fun found => ∃ v, found = some v ∧ Q v := by
  obtain ⟨v, after, run, marks, holds⟩ := parses
  exact ⟨.some v, after, optional_gives.mpr (.inl ⟨v, rfl, run⟩), marks, v, rfl, holds⟩

theorem parses_none {p : Parser α} (stuck : p.Fails c) (marks : c.marks = rest) :
    Parses (optional p) c rest (· = none) :=
  ⟨none, c, optional_gives.mpr (.inr ⟨rfl, stuck, rfl⟩), marks, rfl⟩

theorem parses_offset {f : Nat → Parser β} (next : ∀ n, Parses (f n) c rest S) :
    Parses (offset >>= f) c rest S := by
  obtain ⟨w, last, run, marks, holds⟩ := next c.offset
  exact ⟨w, last, bind_gives.mpr ⟨c.offset, c, offset_gives.mpr ⟨rfl, rfl⟩, run⟩, marks, holds⟩

theorem parses_reached {f : Nat → Parser β} (next : ∀ n, Parses (f n) c rest S) :
    Parses (reached >>= f) c rest S := by
  obtain ⟨w, last, run, marks, holds⟩ := next c.stop
  exact ⟨w, last, bind_gives.mpr ⟨c.stop, c, reached_gives.mpr ⟨rfl, rfl⟩, run⟩, marks, holds⟩

theorem Parses.spanned {p : Parser (Span → α)} (parses : Parses p c rest fun build => ∀ span, Q (build span)) :
    Parses (Parser.spanned p) c rest Q := by
  obtain ⟨build, after, run, marks, holds⟩ := parses
  exact ⟨_, after, spanned_gives.mpr ⟨build, run, rfl⟩, marks, holds _⟩

/-! Tokens -/

theorem parses_accept {select : Token → Option α} {f : Option α → Parser β} {t : Token} {v : α}
    (marks : c.marks = (t, newline) :: more) (found : select t = some v)
    (next : ∀ after, after.marks = more → Parses (f (some v)) after rest S) :
    Parses (accept select >>= f) c rest S := by
  obtain ⟨after, step, marks⟩ := Cursor.exists_steps_marks marks
  obtain ⟨w, last, run, marks', holds⟩ := next after marks
  have taken : (accept select).Gives c (some v) after := accept_gives_some.mpr ⟨t, step, found⟩
  exact ⟨w, last, bind_gives.mpr ⟨some v, after, taken, run⟩, marks', holds⟩

theorem parses_accept_none {select : Token → Option α} {f : Option α → Parser β}
    (none : ∀ mark ∈ c.marks.head?, select mark.1 = none) (next : Parses (f .none) c rest S) :
    Parses (accept select >>= f) c rest S := by
  obtain ⟨w, last, run, marks, holds⟩ := next
  have missing : (accept select).Gives c .none c := accept_gives_none.mpr ⟨Cursor.forall_next? none, rfl⟩
  exact ⟨w, last, bind_gives.mpr ⟨.none, c, missing, run⟩, marks, holds⟩

theorem parses_take {p q : Parser β} {t : Token} (marks : c.marks = (t, newline) :: more)
    (spelled : symbol.isSpelled t = true) (next : ∀ after, after.marks = more → Parses p after rest S) :
    Parses (take symbol >>= fun b => if b = true then p else q) c rest S := by
  refine Parses.of_result (parses_accept (v := ()) marks ?_ ?_) (take_bind_result symbol _ c)
  · simp [spelled]
  · simpa using next

theorem parses_take_no {p q : Parser β} (other : ∀ mark ∈ c.marks.head?, symbol.isSpelled mark.1 = false)
    (next : Parses q c rest S) : Parses (take symbol >>= fun b => if b = true then p else q) c rest S := by
  refine Parses.of_result (parses_accept_none ?_ ?_) (take_bind_result symbol _ c)
  · intro mark first
    simp [other mark first]
  · simpa using next

theorem parses_probe {p q : Parser β} {t : Token} (marks : c.marks = (t, newline) :: more)
    (spelled : symbol.isSpelled t = true) (next : ∀ after, after.marks = more → Parses p after rest S) :
    Parses (probe symbol >>= fun b => if b = true then p else q) c rest S :=
  Parses.of_result (parses_take marks spelled next) (probe_bind_result symbol _ c)

theorem parses_probe_no {p q : Parser β} (other : ∀ mark ∈ c.marks.head?, symbol.isSpelled mark.1 = false)
    (next : Parses q c rest S) : Parses (probe symbol >>= fun b => if b = true then p else q) c rest S :=
  Parses.of_result (parses_take_no other next) (probe_bind_result symbol _ c)

theorem parses_require {p : Parser β} {t : Token} (marks : c.marks = (t, newline) :: more)
    (spelled : symbol.isSpelled t = true) (next : ∀ after, after.marks = more → Parses p after rest S) :
    Parses (require symbol >>= fun _ => p) c rest S :=
  Parses.of_result (parses_take marks spelled next) (require_bind_result symbol p c)

theorem parses_expect {p : Parser β} {t : Token} (marks : c.marks = (t, newline) :: more)
    (spelled : symbol.isSpelled t = true) (next : ∀ after, after.marks = more → Parses p after rest S) :
    Parses (expect symbol >>= fun _ => p) c rest S :=
  Parses.of_result (parses_take marks spelled next) (expect_bind_result symbol p c)

theorem parses_identifier {name : Bytes} (marks : c.marks = (.name name, newline) :: rest) :
    Parses identifier c rest (name = ·) := by
  refine parses_accept marks (v := name) rfl ?_
  exact fun after marks => parses_pure marks rfl

/-- A name, or none where something else is next. -/
theorem parses_identifier? (name : Option Bytes) (covers : Covers (name.toList.map Slot.name) c.marks rest)
    (other : ∀ mark ∈ rest.head?, nameOf? mark.1 = none) : Parses identifier? c rest (name = ·) := by
  have all : Parses (identifier? >>= pure) c rest (name = ·) := by
    cases name with
    | none =>
      cases covers
      exact parses_accept_none other (parses_pure rfl rfl)
    | some name =>
      obtain ⟨_, _, marks, rfl⟩ := covers
      exact parses_accept marks (v := name) rfl fun after marks => parses_pure marks rfl
  exact all.of_result (result_eq_of_gives fun v after => by simp)

theorem parses_ahead {f : Bool → Parser β} {b : Bool} (same : c.marks.head?.any (symbol.isSpelled ·.1) = b)
    (next : Parses (f b) c rest S) : Parses (ahead symbol >>= f) c rest S := by
  obtain ⟨w, last, run, marks, holds⟩ := next
  have looked : (ahead symbol).Gives c b c := by
    refine ahead_gives.mpr ⟨?_, rfl⟩
    rw [← same, Cursor.next?_eq_marks]
    cases c.marks.head? <;> rfl
  exact ⟨w, last, bind_gives.mpr ⟨b, c, looked, run⟩, marks, holds⟩

theorem parses_newlineAhead {f : Bool → Parser β} {b : Bool} (same : c.marks.head?.any Prod.snd = b)
    (next : Parses (f b) c rest S) : Parses (newlineAhead >>= f) c rest S := by
  obtain ⟨w, last, run, marks, holds⟩ := next
  have looked : newlineAhead.Gives c b c := by
    refine newlineAhead_gives.mpr ⟨?_, rfl⟩
    rw [← same, Cursor.breaks_eq_marks]
  exact ⟨w, last, bind_gives.mpr ⟨b, c, looked, run⟩, marks, holds⟩

theorem parses_sameLine {f : Bool → Parser β} (sameLine : ∀ mark ∈ c.marks.head?, mark.2 = false)
    (next : Parses (f false) c rest S) : Parses (newlineAhead >>= f) c rest S := by
  refine parses_newlineAhead ?_ next
  rw [← Bool.not_eq_true, Option.any_eq_true]
  rintro ⟨mark, first, breaks⟩
  rw [sameLine mark first] at breaks
  cases breaks

/-! Loops -/

theorem Parses.last {round : Parser (List α × Bool)} {Q : List α → Prop}
    (parses : Parses round c rest fun found => found.2 = false ∧ Q found.1) : Parses (loop round) c rest Q := by
  obtain ⟨⟨found, _⟩, after, run, marks, rfl, holds⟩ := parses
  exact ⟨found, after, loop_gives_last run, marks, holds⟩

theorem Parses.again {round : Parser (List α × Bool)} {P Q : List α → Prop}
    (parses : Parses round c M fun found => found.2 = true ∧ P found.1)
    (shorter : M.length < c.marks.length)
    (next : ∀ found after, after.marks = M → P found →
      Parses (loop round) after rest fun all => Q (found ++ all)) : Parses (loop round) c rest Q := by
  obtain ⟨⟨found, _⟩, after, run, marks, rfl, holds⟩ := parses
  obtain ⟨all, last, run', marks', holds'⟩ := next found after marks holds
  rw [← marks, Cursor.marks_length, Cursor.marks_length] at shorter
  exact ⟨found ++ all, last, loop_gives_again run shorter run', marks', holds'⟩

/-- As many as the slots say, if each may be followed by the next and the last by the rest. -/
theorem parses_many {n : Nat} {p : Parser α} {items : List β} {part : β → List Slot} {R : β → α → Prop}
    {F : List Mark → Prop} (covers : Covers (items.map part).flatten c.marks rest)
    (short : c.marks.length ≤ n)
    (each : ∀ x ∈ items, ∀ (c : Cursor) (between : List Mark), c.marks.length ≤ n →
      Covers (part x) c.marks between → F between → Parses p c between (R x))
    (heads : ∀ x ∈ items, ∀ marks between : List Mark, Covers (part x) marks between →
      between.length < marks.length ∧ F marks)
    (follow : F rest) (stuck : ∀ c : Cursor, c.marks = rest → p.Fails c) :
    Parses (many p) c rest (List.Forall₂ R items) := by
  induction items generalizing c with
  | nil => exact ⟨[], c, many_gives_nil (stuck c covers), covers, .nil⟩
  | cons x items ih =>
    obtain ⟨between, first, others⟩ := covers.of_append
    have shorter := (heads x List.mem_cons_self _ _ first).1
    have followed : F between := by
      cases items with
      | nil =>
        cases others
        exact follow
      | cons y items =>
        obtain ⟨_, second, _⟩ := others.of_append
        exact (heads y (by simp) _ _ second).2
    obtain ⟨v, after, run, marks, holds⟩ := each x List.mem_cons_self c between short first followed
    rw [← marks] at others shorter
    obtain ⟨vs, last, run', marks', holds'⟩ := ih others (by omega)
      (fun y member => each y (List.mem_cons_of_mem _ member))
      (fun y member => heads y (List.mem_cons_of_mem _ member))
    rw [Cursor.marks_length, Cursor.marks_length] at shorter
    exact ⟨v :: vs, last, many_gives_cons run shorter run', marks', .cons holds holds'⟩

/-- All that the slots say, with a comma between two of them. -/
theorem parses_separated {n : Nat} {p : Parser α} {items : List β} {part : β → List Slot} {R : β → α → Prop}
    {F : List Mark → Prop} (covers : Covers (Slot.separated [.punct .comma] (items.map part)) c.marks rest)
    (nonempty : items ≠ []) (short : c.marks.length ≤ n)
    (each : ∀ x ∈ items, ∀ (c : Cursor) (between : List Mark), c.marks.length ≤ n →
      Covers (part x) c.marks between → F between → Parses p c between (R x))
    (comma : ∀ newline more, F ((.punct .comma, newline) :: more)) (follow : F rest)
    (noComma : ∀ mark ∈ rest.head?, mark.1 ≠ .punct .comma) :
    Parses (separated p) c rest (List.Forall₂ R items) := by
  have followed : ∀ (items : List β) (marks : List Mark),
      Covers (items.map fun x => .punct .comma :: part x).flatten marks rest → F marks := by
    rintro (_ | ⟨x, items⟩) marks covers
    · cases covers
      exact follow
    · obtain ⟨newline, more, rfl, -⟩ := covers
      exact comma newline more
  have further : ∀ (items : List β) (c : Cursor), c.marks.length ≤ n →
      (∀ x ∈ items, ∀ (c : Cursor) (between : List Mark), c.marks.length ≤ n →
        Covers (part x) c.marks between → F between → Parses p c between (R x)) →
      Covers (items.map fun x => .punct .comma :: part x).flatten c.marks rest →
      Parses (furtherItems p) c rest (List.Forall₂ R items) := by
    intro items
    induction items with
    | nil =>
      intro c _ _ covers
      exact ⟨[], c, furtherItems_gives_nil (Cursor.forall_next? (covers ▸ noComma)), covers, .nil⟩
    | cons x items ih =>
      intro c short each covers
      obtain ⟨between, ⟨newline, more, marks, first⟩, others⟩ := covers.of_append
      obtain ⟨next, step, rfl⟩ := Cursor.exists_steps_marks marks
      rw [marks, List.length_cons] at short
      obtain ⟨v, after, run, rfl, holds⟩ := each x List.mem_cons_self next between (by omega) first
        (followed items between others)
      have shorter := first.length_le
      obtain ⟨vs, last, run', marks', holds'⟩ := ih after (by omega)
        (fun y member => each y (List.mem_cons_of_mem _ member)) others
      exact ⟨v :: vs, last, furtherItems_gives_cons step run first.rest_length_le run', marks', .cons holds holds'⟩
  obtain _ | ⟨x, items⟩ := items
  · exact absurd rfl nonempty
  rw [List.map_cons, Slot.separated_cons, List.map_map] at covers
  obtain ⟨between, first, others⟩ := covers.of_append
  obtain ⟨v, after, run, rfl, holds⟩ := each x List.mem_cons_self c between short first
    (followed items between others)
  have shorter := first.length_le
  obtain ⟨vs, last, run', marks', holds'⟩ := further items after (by omega)
    (fun y member => each y (List.mem_cons_of_mem _ member)) others
  exact ⟨v :: vs, last, separated_gives.mpr ⟨v, after, vs, run, run', rfl⟩, marks', .cons holds holds'⟩

end Parser

end EcmaFold
