import EcmaFold.Proofs.Parser.Nesting
import EcmaFold.Proofs.Tree.WellFormed

/-!
What a parser takes. A parser reads, at a cursor, slots that stand in a relation to its value when every
success takes exactly the marks that such slots cover. Each combinator has a rule that splits the slots, so
that a production is proved by walking along it.
-/

namespace EcmaFold

/-- The token that spells a symbol. -/
def Symbol.token : Symbol → Token
  | punct p => .punct p
  | word w => .keyword w
  | illegal | ending => .ending

theorem Symbol.eq_token_of_isSpelled {symbol : Symbol} {t : Token} (spelled : symbol.isSpelled t = true) :
    t = symbol.token := by
  cases symbol with
  | punct p => exact isSpelled_punct.mp spelled
  | word w => exact isSpelled_word.mp spelled
  | _ => cases t <;> cases spelled

namespace Cursor

/-- The lexemes ahead without their places. -/
def marks (c : Cursor) : List Mark := c.rest.map Lexeme.mark

theorem marks_length (c : Cursor) : c.marks.length = c.rest.length := List.length_map _

/-- Every token ahead is clean. -/
def Clean (c : Cursor) : Prop := ∀ mark ∈ c.marks, mark.1.Clean

theorem Steps.marks {c after : Cursor} {t : Token} (step : c.Steps t after) :
    ∃ newline, c.marks = (t, newline) :: after.marks := by
  obtain ⟨newline, span, rest, atRest, rfl⟩ := step
  exact ⟨newline, by simp [Cursor.marks, atRest, Lexeme.mark]⟩

theorem next?_eq_marks (c : Cursor) : c.next? = c.marks.head?.map Prod.fst := by
  obtain ⟨_, _ | ⟨_, _⟩⟩ := c <;> rfl

theorem breaks_eq_marks (c : Cursor) : c.breaks = c.marks.head?.any Prod.snd := by
  obtain ⟨_, _ | ⟨_, _⟩⟩ := c <;> rfl

theorem Clean.of_covers {c after : Cursor} {slots : List Slot} (clean : c.Clean)
    (covers : Covers slots c.marks after.marks) : after.Clean := by
  obtain ⟨taken, same⟩ := covers.exists_append
  intro mark member
  exact clean mark (by rw [same]; exact List.mem_append_right _ member)

end Cursor

theorem Covers.rest_length_le {c after : Cursor} {slots : List Slot}
    (covers : Covers slots c.marks after.marks) : after.rest.length ≤ c.rest.length := by
  have shorter := covers.length_le
  rwa [Cursor.marks_length, Cursor.marks_length] at shorter

namespace Parser

variable {α β : Type}

/-- Where the tokens ahead are clean, whatever the parser gives was covered by slots in the relation. -/
def Reads (p : Parser α) (c : Cursor) (R : α → List Slot → Cursor → Prop) : Prop :=
  c.Clean → ∀ v after, p.Gives c v after → ∃ slots, Covers slots c.marks after.marks ∧ R v slots after

variable {c : Cursor} {R : α → List Slot → Cursor → Prop} {S : β → List Slot → Cursor → Prop}

theorem Reads.weaken {p : Parser α} {R' : α → List Slot → Cursor → Prop} (reads : Reads p c R)
    (weaker : ∀ v slots after, R v slots after → R' v slots after) : Reads p c R' := by
  intro clean v after run
  obtain ⟨slots, covers, holds⟩ := reads clean v after run
  exact ⟨slots, covers, weaker v slots after holds⟩

theorem Reads.of_result {p q : Parser α} (reads : Reads p c R) (same : (q c).result = (p c).result) :
    Reads q c R := by
  intro clean v after run
  exact reads clean v after (same.symm.trans run)

theorem reads_pure {v : α} (holds : R v [] c) : Reads (pure v) c R := by
  intro _ w after run
  obtain ⟨rfl, rfl⟩ := pure_gives.mp run
  exact ⟨[], rfl, holds⟩

theorem reads_of_fails {p : Parser α} (stuck : p.Fails c) : Reads p c R := by
  intro _ v after run
  exact absurd stuck run.not_fails

theorem reads_fail : Reads (fail : Parser α) c R := reads_of_fails (fail_fails.mpr trivial)

theorem reads_failMissing {e : Expectation} : Reads (failMissing e : Parser α) c R :=
  reads_of_fails (failMissing_fails.mpr trivial)

theorem Reads.bind {p : Parser α} {f : α → Parser β} (first : Reads p c R)
    (next : ∀ v slots between, between.rest.length ≤ c.rest.length → R v slots between →
      Reads (f v) between fun w more after => S w (slots ++ more) after) :
    Reads (p >>= f) c S := by
  intro clean w after run
  obtain ⟨v, between, runFirst, runNext⟩ := bind_gives.mp run
  obtain ⟨slots, covers, holds⟩ := first clean v between runFirst
  obtain ⟨more, coversMore, result⟩ :=
    next v slots between covers.rest_length_le holds (clean.of_covers covers) w after runNext
  exact ⟨slots ++ more, covers.append coversMore, result⟩

theorem Reads.map {p : Parser α} {f : α → β} (reads : Reads p c fun v slots after => S (f v) slots after) :
    Reads (f <$> p) c S := by
  intro clean w after run
  obtain ⟨v, inner, rfl⟩ := map_gives.mp run
  exact reads clean v after inner

theorem Reads.either {p q : Parser α} (first : Reads p c R) (second : Reads q c R) :
    Reads (p <|> q) c R := by
  intro clean v after run
  rcases either_gives.mp run with run | ⟨_, run⟩
  · exact first clean v after run
  · exact second clean v after run

theorem Reads.optional {p : Parser α} {R : Option α → List Slot → Cursor → Prop}
    (present : Reads p c fun v slots after => R (some v) slots after) (absent : p.Fails c → R none [] c) :
    Reads (Parser.optional p) c R := by
  intro clean o after run
  rcases optional_gives.mp run with ⟨v, rfl, inner⟩ | ⟨rfl, stuck, rfl⟩
  · exact present clean v after inner
  · exact ⟨[], rfl, absent stuck⟩

theorem reads_offset {f : Nat → Parser β} (next : ∀ n, Reads (f n) c S) : Reads (offset >>= f) c S := by
  intro clean w after run
  obtain ⟨n, between, first, rest⟩ := bind_gives.mp run
  obtain ⟨_, rfl⟩ := offset_gives.mp first
  exact next n clean w after rest

theorem reads_reached {f : Nat → Parser β} (next : ∀ n, Reads (f n) c S) : Reads (reached >>= f) c S := by
  intro clean w after run
  obtain ⟨n, between, first, rest⟩ := bind_gives.mp run
  obtain ⟨_, rfl⟩ := reached_gives.mp first
  exact next n clean w after rest

theorem Reads.spanned {p : Parser (Span → α)}
    (reads : Reads p c fun build slots after => ∀ span, R (build span) slots after) :
    Reads (Parser.spanned p) c R := by
  intro clean v after run
  obtain ⟨build, inner, rfl⟩ := spanned_gives.mp run
  obtain ⟨slots, covers, holds⟩ := reads clean build after inner
  exact ⟨slots, covers, holds _⟩

theorem reads_accept {select : Token → Option α} {f : Option α → Parser β}
    (found : ∀ t v between, select t = some v → t.Clean → between.rest.length < c.rest.length →
      Reads (f (some v)) between fun w slots after => S w (.token t :: slots) after)
    (missing : Reads (f none) c S) : Reads (accept select >>= f) c S := by
  intro clean w after run
  obtain ⟨o, between, first, rest⟩ := bind_gives.mp run
  rcases accept_gives.mp first with ⟨t, v, step, chosen, rfl⟩ | ⟨_, rfl, rfl⟩
  · obtain ⟨newline, marks⟩ := step.marks
    have token : Covers [.token t] c.marks between.marks := ⟨newline, between.marks, marks, rfl⟩
    have tokenClean : t.Clean := clean (t, newline) (by rw [marks]; exact List.mem_cons_self)
    have shorter : between.rest.length < c.rest.length := by
      have length := step.rest_length
      omega
    obtain ⟨slots, covers, holds⟩ :=
      found t v between chosen tokenClean shorter (clean.of_covers token) w after rest
    exact ⟨.token t :: slots, token.append covers, holds⟩
  · exact missing clean w after rest

theorem reads_take {symbol : Symbol} {p q : Parser β}
    (yes : ∀ between : Cursor, between.rest.length < c.rest.length →
      Reads p between fun w slots after => S w (.token symbol.token :: slots) after)
    (no : Reads q c S) : Reads (take symbol >>= fun b => if b = true then p else q) c S := by
  refine Reads.of_result (reads_accept (fun t v between chosen _ shorter => ?_) ?_) (take_bind_result symbol _ c)
  · have spelled : symbol.isSpelled t = true := by
      by_contra different
      simp [different] at chosen
    rw [Symbol.eq_token_of_isSpelled spelled]
    simpa using yes between shorter
  · simpa using no

theorem reads_probe {symbol : Symbol} {p q : Parser β}
    (yes : ∀ between : Cursor, between.rest.length < c.rest.length →
      Reads p between fun w slots after => S w (.token symbol.token :: slots) after)
    (no : Reads q c S) : Reads (probe symbol >>= fun b => if b = true then p else q) c S :=
  Reads.of_result (reads_take yes no) (probe_bind_result symbol _ c)

theorem reads_require {symbol : Symbol} {p : Parser β}
    (next : ∀ between : Cursor, between.rest.length < c.rest.length →
      Reads p between fun w slots after => S w (.token symbol.token :: slots) after) :
    Reads (require symbol >>= fun _ => p) c S :=
  Reads.of_result (reads_take next reads_fail) (require_bind_result symbol p c)

theorem reads_expect {symbol : Symbol} {p : Parser β}
    (next : ∀ between : Cursor, between.rest.length < c.rest.length →
      Reads p between fun w slots after => S w (.token symbol.token :: slots) after) :
    Reads (expect symbol >>= fun _ => p) c S :=
  Reads.of_result (reads_take next reads_fail) (expect_bind_result symbol p c)

/-- What an identifier is. -/
abbrev IsIdentifier (name : Bytes) (slots : List Slot) : Prop :=
  slots = [.name name] ∧ Name.identifier? name = some name

theorem reads_identifier : Reads identifier c fun name slots _ => IsIdentifier name slots := by
  refine reads_accept (fun t name between chosen clean _ => ?_) reads_failMissing
  obtain rfl := nameOf?_eq_some.mp chosen
  exact reads_pure ⟨rfl, clean⟩

theorem reads_identifier? : Reads identifier? c fun name slots _ =>
    slots = name.toList.map Slot.name ∧ ∀ n ∈ name, Name.identifier? n = some n := by
  have all : Reads (identifier? >>= pure) c fun name slots _ =>
      slots = name.toList.map Slot.name ∧ ∀ n ∈ name, Name.identifier? n = some n := by
    refine reads_accept (fun t name between chosen clean _ => ?_) (reads_pure ⟨rfl, by simp⟩)
    obtain rfl := nameOf?_eq_some.mp chosen
    exact reads_pure ⟨rfl, by rintro n ⟨⟩; exact clean⟩
  exact all.of_result (result_eq_of_gives fun v after => by simp)

theorem reads_ahead {symbol : Symbol} {f : Bool → Parser β}
    (next : ∀ b, b = c.next?.any symbol.isSpelled → Reads (f b) c S) : Reads (ahead symbol >>= f) c S := by
  intro clean w after run
  obtain ⟨b, between, first, rest⟩ := bind_gives.mp run
  obtain ⟨same, rfl⟩ := ahead_gives.mp first
  exact next b same clean w after rest

/-- Where no line ends, what follows stands on the same line. -/
theorem reads_newlineAhead {p q : Parser β} (yes : Reads p c S)
    (no : Reads q c fun w slots after => S w (.sameLine :: slots) after ∨ S w slots after) :
    Reads (newlineAhead >>= fun b => if b = true then p else q) c S := by
  intro clean w after run
  obtain ⟨b, between, first, rest⟩ := bind_gives.mp run
  obtain ⟨same, rfl⟩ := newlineAhead_gives.mp first
  cases b with
  | true => exact yes clean w after (by simpa using rest)
  | false =>
    obtain ⟨slots, covers, holds | holds⟩ := no clean w after (by simpa using rest)
    · refine ⟨.sameLine :: slots, ⟨?_, covers⟩, holds⟩
      intro mark first
      rw [Cursor.breaks_eq_marks] at same
      rw [Option.mem_def.mp first] at same
      exact same.symm
    · exact ⟨slots, covers, holds⟩

/-! Loops -/

/-- A loop whose rounds take the parts of what they find, and whose last round takes some slots more. -/
theorem Reads.loop {n : Nat} {round : Parser (List α × Bool)} {part : α → List Slot} {Q : α → Prop}
    {last : List Slot} (each : ∀ c : Cursor, c.rest.length ≤ n → Reads round c fun found slots _ =>
      slots = (found.1.map part).flatten ++ (if found.2 then [] else last) ∧ ∀ v ∈ found.1, Q v)
    (short : c.rest.length ≤ n) :
    Reads (Parser.loop round) c fun all slots _ => slots = (all.map part).flatten ++ last ∧ ∀ v ∈ all, Q v := by
  intro clean all after run
  have result := loop_induction (motive := fun c all after => c.rest.length ≤ n → c.Clean →
    Covers ((all.map part).flatten ++ last) c.marks after.marks ∧ ∀ v ∈ all, Q v) ?_ ?_ run short clean
  · exact ⟨_, result.1, rfl, result.2⟩
  · intro c found after first short clean
    obtain ⟨slots, covers, rfl, holds⟩ := each c short clean _ after first
    exact ⟨covers, holds⟩
  · intro c found between rest after first ih short clean
    obtain ⟨slots, covers, rfl, holds⟩ := each c short clean _ between first
    have more := ih (Nat.le_trans covers.rest_length_le short) (clean.of_covers covers)
    simp only [if_true, List.append_nil] at covers
    refine ⟨?_, ?_⟩
    · rw [List.map_append, List.flatten_append, List.append_assoc]
      exact covers.append more.1
    · intro v member
      rcases List.mem_append.mp member with inFirst | inRest
      · exact holds v inFirst
      · exact more.2 v inRest

theorem Reads.many {n : Nat} {p : Parser α} {part : α → List Slot} {Q : α → Prop}
    (each : ∀ c : Cursor, c.rest.length ≤ n → Reads p c fun v slots _ => slots = part v ∧ Q v)
    (short : c.rest.length ≤ n) :
    Reads (Parser.many p) c fun all slots _ => slots = (all.map part).flatten ∧ ∀ v ∈ all, Q v := by
  intro clean all after run
  have result := many_induction (motive := fun c all after => c.rest.length ≤ n → c.Clean →
    Covers (all.map part).flatten c.marks after.marks ∧ ∀ v ∈ all, Q v) ?_ ?_ run short clean
  · exact ⟨_, result.1, rfl, result.2⟩
  · intro c _ _ _
    exact ⟨rfl, by simp⟩
  · intro c v between rest after first ih short clean
    obtain ⟨slots, covers, rfl, holds⟩ := each c short clean v between first
    have more := ih (Nat.le_trans covers.rest_length_le short) (clean.of_covers covers)
    exact ⟨covers.append more.1, List.forall_mem_cons.mpr ⟨holds, more.2⟩⟩

theorem reads_manyTokens {select : Token → Option α} {part : α → Slot}
    (each : ∀ t v, select t = some v → part v = .token t) :
    Reads (manyTokens select) c fun all slots _ => slots = all.map part := by
  intro clean all after run
  have result := manyTokens_induction (motive := fun c all after =>
    Covers (all.map part) c.marks after.marks) ?_ ?_ run
  · exact ⟨_, result, rfl⟩
  · intro c _
    rfl
  · intro c t v between rest after step found ih
    obtain ⟨newline, marks⟩ := step.marks
    rw [List.map_cons, each t v found]
    exact ⟨newline, between.marks, marks, ih⟩

theorem Reads.separated {n : Nat} {p : Parser α} {part : α → List Slot} {Q : α → Prop}
    (each : ∀ c : Cursor, c.rest.length ≤ n → Reads p c fun v slots _ => slots = part v ∧ Q v)
    (short : c.rest.length ≤ n) :
    Reads (Parser.separated p) c fun all slots _ =>
      slots = Slot.separated [.punct .comma] (all.map part) ∧ all ≠ [] ∧ ∀ v ∈ all, Q v := by
  intro clean all after run
  obtain ⟨first, between, rest, runFirst, runRest, rfl⟩ := separated_gives.mp run
  obtain ⟨slots, covers, rfl, holds⟩ := each c short clean first between runFirst
  have result := furtherItems_induction (motive := fun c all after => c.rest.length ≤ n → c.Clean →
    Covers (all.map fun v => .punct .comma :: part v).flatten c.marks after.marks ∧ ∀ v ∈ all, Q v) ?_ ?_
    runRest (Nat.le_trans covers.rest_length_le short) (clean.of_covers covers)
  · refine ⟨_, covers.append result.1, ?_, List.cons_ne_nil _ _, List.forall_mem_cons.mpr ⟨holds, result.2⟩⟩
    rw [List.map_cons, Slot.separated_cons, List.map_map]
    rfl
  · intro c _ _
    exact ⟨rfl, by simp⟩
  · intro c between v last rest after comma first ih short clean
    obtain ⟨newline, marks⟩ := comma.marks
    have taken : Covers [.punct .comma] c.marks between.marks := ⟨newline, between.marks, marks, rfl⟩
    have shortBetween := Nat.le_trans taken.rest_length_le short
    obtain ⟨slots, covers, rfl, holds⟩ := each between shortBetween (clean.of_covers taken) v last first
    have more := ih (Nat.le_trans covers.rest_length_le shortBetween)
      ((clean.of_covers taken).of_covers covers)
    exact ⟨taken.append (covers.append more.1), List.forall_mem_cons.mpr ⟨holds, more.2⟩⟩

end Parser

end EcmaFold
