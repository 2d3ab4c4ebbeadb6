import EcmaFold.Proofs.Parser.Outcome
import Mathlib.Data.List.Forall2

/-!
Parsers that agree. Two cursors are alike when the grammar cannot tell them apart: the same tokens follow,
and lines end before the same ones. Two parsers agree up to a number of lexemes when, at alike cursors with
no more lexemes left, both fail or both give related values and stop at alike cursors. Each combinator keeps
agreement, and taking a token lowers the number for what follows.
-/

namespace EcmaFold

/-- The same token with the same fact about line ends. Before the end of the source that fact is never
asked for. -/
def Lexeme.Alike (x y : Lexeme) : Prop :=
  x.token = y.token ∧ (x.newline = y.newline ∨ x.token = .ending)

namespace Cursor

/-- The lexemes ahead are alike one by one. -/
def Alike (c d : Cursor) : Prop := List.Forall₂ Lexeme.Alike c.rest d.rest

theorem Alike.refl (c : Cursor) : c.Alike c := by
  refine List.forall₂_same.mpr ?_
  intro x _
  exact ⟨rfl, .inl rfl⟩

theorem Alike.length_eq {c d : Cursor} (alike : c.Alike d) : c.rest.length = d.rest.length :=
  List.Forall₂.length_eq alike

theorem Alike.next?_eq {c d : Cursor} (alike : c.Alike d) : c.next? = d.next? := by
  obtain ⟨_, rest⟩ := c
  obtain ⟨_, rest'⟩ := d
  cases alike with
  | nil => rfl
  | cons head _ => exact congrArg some head.1

theorem Alike.breaks {c d : Cursor} (alike : c.Alike d) :
    c.breaks = d.breaks ∨ c.next? = some .ending := by
  obtain ⟨_, rest⟩ := c
  obtain ⟨_, rest'⟩ := d
  cases alike with
  | nil => exact .inl rfl
  | cons head _ =>
    rcases head.2 with same | ending
    · exact .inl (by simp [Cursor.breaks, same])
    · exact .inr (congrArg some ending)

theorem Alike.steps {c d after : Cursor} {t : Token} (alike : c.Alike d) (step : c.Steps t after) :
    ∃ after', d.Steps t after' ∧ after.Alike after' := by
  obtain ⟨_, rest⟩ := c
  obtain ⟨_, rest'⟩ := d
  obtain ⟨newline, span, tail, rfl, rfl⟩ := step
  cases alike with
  | @cons _ head' _ tail' head tails =>
    obtain ⟨token, newline', span'⟩ := head'
    obtain rfl : t = token := head.1
    exact ⟨_, ⟨newline', span', tail', rfl, rfl⟩, tails⟩

end Cursor

namespace Parser

variable {α β γ δ : Type}

/-- What two parsers do at two cursors is the same up to the relation. -/
def Match (R : α → β → Prop) (p : Parser α) (c : Cursor) (q : Parser β) (d : Cursor) : Prop :=
  p.Fails c ∧ q.Fails d ∨ ∃ v after w after', p.Gives c v after ∧ q.Gives d w after' ∧ R v w ∧
    after.Alike after' ∧ after.rest.length ≤ c.rest.length

/-- The parsers do the same at alike cursors with at most `n` lexemes left. -/
def Agree (n : Nat) (R : α → β → Prop) (p : Parser α) (q : Parser β) : Prop :=
  ∀ c d, c.Alike d → c.rest.length ≤ n → Match R p c q d

variable {n m : Nat} {R : α → β → Prop} {S : γ → δ → Prop}

theorem Agree.mono {p : Parser α} {q : Parser β} (agree : Agree n R p q) (fewer : m ≤ n) :
    Agree m R p q :=
  fun c d alike short => agree c d alike (Nat.le_trans short fewer)

theorem agree_pure {v : α} {w : β} (same : R v w) : Agree n R (pure v) (pure w) :=
  fun c d alike _ =>
    .inr ⟨v, c, w, d, pure_gives.mpr ⟨rfl, rfl⟩, pure_gives.mpr ⟨rfl, rfl⟩, same, alike, Nat.le_refl _⟩

theorem agree_fail : Agree n R (fail : Parser α) (fail : Parser β) :=
  fun _ _ _ _ => .inl ⟨fail_fails.mpr trivial, fail_fails.mpr trivial⟩

theorem agree_failMissing {e e' : Expectation} :
    Agree n R (failMissing e : Parser α) (failMissing e' : Parser β) :=
  fun _ _ _ _ => .inl ⟨failMissing_fails.mpr trivial, failMissing_fails.mpr trivial⟩

theorem Agree.bind {p : Parser α} {q : Parser β} {f : α → Parser γ} {g : β → Parser δ}
    (first : Agree n R p q) (next : ∀ v w, R v w → Agree n S (f v) (g w)) :
    Agree n S (p >>= f) (q >>= g) := by
  intro c d alike short
  rcases first c d alike short with
    ⟨stuck, stuck'⟩ | ⟨v, mid, w, mid', run, run', same, alikeMid, shrinks⟩
  · exact .inl ⟨bind_fails.mpr (.inl stuck), bind_fails.mpr (.inl stuck')⟩
  · rcases next v w same mid mid' alikeMid (by omega) with
      ⟨stuck, stuck'⟩ | ⟨x, after, y, after', last, last', related, alikeAfter, shrinks'⟩
    · exact .inl ⟨bind_fails.mpr (.inr ⟨v, mid, run, stuck⟩), bind_fails.mpr (.inr ⟨w, mid', run', stuck'⟩)⟩
    · exact .inr ⟨x, after, y, after', bind_gives.mpr ⟨v, mid, run, last⟩,
        bind_gives.mpr ⟨w, mid', run', last'⟩, related, alikeAfter, by omega⟩

theorem Agree.map {p : Parser α} {q : Parser β} {f : α → γ} {g : β → δ} (agree : Agree n R p q)
    (keeps : ∀ v w, R v w → S (f v) (g w)) : Agree n S (f <$> p) (g <$> q) :=
  agree.bind fun v w same => agree_pure (keeps v w same)

theorem Agree.either {p p' : Parser α} {q q' : Parser β} (first : Agree n R p q)
    (second : Agree n R p' q') : Agree n R (p <|> p') (q <|> q') := by
  intro c d alike short
  rcases first c d alike short with ⟨stuck, stuck'⟩ | ⟨v, after, w, after', run, run', rest⟩
  · rcases second c d alike short with ⟨stuck₂, stuck₂'⟩ | ⟨v, after, w, after', run, run', rest⟩
    · exact .inl ⟨either_fails.mpr ⟨stuck, stuck₂⟩, either_fails.mpr ⟨stuck', stuck₂'⟩⟩
    · exact .inr ⟨v, after, w, after', either_gives.mpr (.inr ⟨stuck, run⟩),
        either_gives.mpr (.inr ⟨stuck', run'⟩), rest⟩
  · exact .inr ⟨v, after, w, after', either_gives.mpr (.inl run), either_gives.mpr (.inl run'), rest⟩

theorem Agree.optional {p : Parser α} {q : Parser β} (agree : Agree n R p q) :
    Agree n (Option.Rel R) (Parser.optional p) (Parser.optional q) :=
  Agree.either (agree.map fun _ _ same => .some same) (agree_pure .none)

theorem agree_offset : Agree n (fun _ _ => True) offset offset :=
  fun c d alike _ => .inr ⟨c.offset, c, d.offset, d, rfl, rfl, trivial, alike, Nat.le_refl _⟩

theorem agree_reached : Agree n (fun _ _ => True) reached reached :=
  fun c d alike _ => .inr ⟨c.stop, c, d.stop, d, rfl, rfl, trivial, alike, Nat.le_refl _⟩

/-- The values built have to be related wherever they are placed. -/
theorem Agree.spanned {p : Parser (Span → α)} {q : Parser (Span → β)}
    (agree : Agree n (fun f g => ∀ s s', R (f s) (g s')) p q) :
    Agree n R (Parser.spanned p) (Parser.spanned q) := by
  refine agree_offset.bind fun start start' _ => agree.bind fun f g same => ?_
  exact agree_reached.bind fun stop stop' _ => agree_pure (same _ _)

/-- Taking a token lowers the number of lexemes for what follows. -/
theorem agree_accept {select : Token → Option α} {f : Option α → Parser γ} {g : Option α → Parser δ}
    (bound : n ≤ m + 1) (found : ∀ t v, select t = some v → Agree m S (f (some v)) (g (some v)))
    (missing : Agree n S (f none) (g none)) :
    Agree n S (accept select >>= f) (accept select >>= g) := by
  intro c d alike short
  have decided : (∃ t v after, c.Steps t after ∧ select t = some v) ∨ ∀ t ∈ c.next?, select t = none := by
    cases next : c.next? with
    | none => exact .inr (by simp)
    | some t =>
      obtain ⟨after, step⟩ := Cursor.exists_steps next
      cases chosen : select t with
      | none => exact .inr (by simpa using chosen)
      | some v => exact .inl ⟨t, v, after, step, chosen⟩
  rcases decided with ⟨t, v, after, step, chosen⟩ | none
  · obtain ⟨after', step', alike'⟩ := alike.steps step
    have length := step.rest_length
    have run : (accept select).Gives c (some v) after := accept_gives_some.mpr ⟨t, step, chosen⟩
    have run' : (accept select).Gives d (some v) after' := accept_gives_some.mpr ⟨t, step', chosen⟩
    rcases found t v chosen after after' alike' (by omega) with
      ⟨stuck, stuck'⟩ | ⟨x, last, y, last', rest, rest', related, alikeLast, shrinks⟩
    · exact .inl ⟨bind_fails.mpr (.inr ⟨_, _, run, stuck⟩), bind_fails.mpr (.inr ⟨_, _, run', stuck'⟩)⟩
    · exact .inr ⟨x, last, y, last', bind_gives.mpr ⟨_, _, run, rest⟩, bind_gives.mpr ⟨_, _, run', rest'⟩,
        related, alikeLast, by omega⟩
  · have run : (accept select).Gives c Option.none c := accept_gives_none.mpr ⟨none, rfl⟩
    have run' : (accept select).Gives d Option.none d :=
      accept_gives_none.mpr ⟨by rw [← alike.next?_eq]; exact none, rfl⟩
    rcases missing c d alike short with
      ⟨stuck, stuck'⟩ | ⟨x, last, y, last', rest, rest', more⟩
    · exact .inl ⟨bind_fails.mpr (.inr ⟨_, _, run, stuck⟩), bind_fails.mpr (.inr ⟨_, _, run', stuck'⟩)⟩
    · exact .inr ⟨x, last, y, last', bind_gives.mpr ⟨_, _, run, rest⟩, bind_gives.mpr ⟨_, _, run', rest'⟩,
        more⟩

/-- Agreement is about results only. -/
theorem Agree.of_results {p p' : Parser α} {q q' : Parser β} (agree : Agree n R p q)
    (left : ∀ c, (p' c).result = (p c).result) (right : ∀ c, (q' c).result = (q c).result) :
    Agree n R p' q' := by
  intro c d alike short
  simpa only [Match, Fails, Gives, left, right] using agree c d alike short

theorem result_eq_of_gives {p q : Parser α} {c : Cursor}
    (same : ∀ v after, p.Gives c v after ↔ q.Gives c v after) : (p c).result = (q c).result :=
  Option.ext fun success => same success.1 success.2

theorem result_eq_pure {p : Parser α} {c : Cursor} {v : α} (run : p.Gives c v c) :
    (p c).result = ((pure v : Parser α) c).result := run

theorem take_bind_result (symbol : Symbol) (f : Bool → Parser γ) (c : Cursor) :
    ((take symbol >>= f) c).result =
      ((accept (fun t => if symbol.isSpelled t then some () else none) >>= fun o => f o.isSome) c).result :=
  result_eq_of_gives fun v after => by simp [Bool.exists_bool, Option.exists]

theorem probe_bind_result (symbol : Symbol) (f : Bool → Parser γ) (c : Cursor) :
    ((probe symbol >>= f) c).result = ((take symbol >>= f) c).result :=
  result_eq_of_gives fun v after => by simp [Bool.exists_bool]

theorem require_bind_result (symbol : Symbol) (p : Parser γ) (c : Cursor) :
    ((require symbol >>= fun _ => p) c).result =
      ((take symbol >>= fun b => if b = true then p else fail) c).result :=
  result_eq_of_gives fun v after => by simp [Bool.exists_bool]

theorem expect_bind_result (symbol : Symbol) (p : Parser γ) (c : Cursor) :
    ((expect symbol >>= fun _ => p) c).result =
      ((take symbol >>= fun b => if b = true then p else fail) c).result :=
  result_eq_of_gives fun v after => by simp [Bool.exists_bool]

theorem agree_take {symbol : Symbol} {p p' : Parser γ} {q q' : Parser δ} (bound : n ≤ m + 1)
    (yes : Agree m S p q) (no : Agree n S p' q') :
    Agree n S (take symbol >>= fun b => if b = true then p else p')
      (take symbol >>= fun b => if b = true then q else q') := by
  refine Agree.of_results ?_ (take_bind_result symbol _) (take_bind_result symbol _)
  exact agree_accept bound (fun _ _ _ => by simpa using yes) (by simpa using no)

theorem agree_probe {symbol : Symbol} {p p' : Parser γ} {q q' : Parser δ} (bound : n ≤ m + 1)
    (yes : Agree m S p q) (no : Agree n S p' q') :
    Agree n S (probe symbol >>= fun b => if b = true then p else p')
      (probe symbol >>= fun b => if b = true then q else q') :=
  Agree.of_results (agree_take bound yes no) (probe_bind_result symbol _) (probe_bind_result symbol _)

theorem agree_require {symbol : Symbol} {p : Parser γ} {q : Parser δ} (rest : Agree n S p q) :
    Agree (n + 1) S (require symbol >>= fun _ => p) (require symbol >>= fun _ => q) :=
  Agree.of_results (agree_take (Nat.le_refl _) rest agree_fail) (require_bind_result symbol _)
    (require_bind_result symbol _)

theorem agree_expect_first {symbol : Symbol} {p : Parser γ} {q : Parser δ} (rest : Agree n S p q) :
    Agree (n + 1) S (expect symbol >>= fun _ => p) (expect symbol >>= fun _ => q) :=
  Agree.of_results (agree_take (Nat.le_refl _) rest agree_fail) (expect_bind_result symbol _)
    (expect_bind_result symbol _)

theorem agree_expect {symbol : Symbol} {p : Parser γ} {q : Parser δ} (rest : Agree n S p q) :
    Agree n S (expect symbol >>= fun _ => p) (expect symbol >>= fun _ => q) :=
  (agree_expect_first rest).mono (Nat.le_succ n)

theorem agree_identifier : Agree n Eq identifier identifier :=
  agree_accept (Nat.le_succ _) (fun _ _ _ => agree_pure rfl) agree_failMissing

theorem agree_identifier? : Agree n Eq identifier? identifier? := by
  have all : Agree n Eq (identifier? >>= pure) (identifier? >>= pure) :=
    agree_accept (Nat.le_succ _) (fun _ _ _ => agree_pure rfl) (agree_pure rfl)
  refine all.of_results ?_ ?_ <;> exact fun c => result_eq_of_gives fun v after => by simp

/-- What is ahead is the same at alike cursors. -/
theorem agree_ahead {symbol : Symbol} {f : Bool → Parser γ} {g : Bool → Parser δ}
    (rest : ∀ b, Agree n S (f b) (g b)) : Agree n S (ahead symbol >>= f) (ahead symbol >>= g) := by
  have next : Agree n Eq (ahead symbol) (ahead symbol) := by
    intro c d alike _
    refine .inr ⟨_, c, _, d, ahead_gives.mpr ⟨rfl, rfl⟩, ahead_gives.mpr ⟨rfl, rfl⟩, ?_, alike, Nat.le_refl _⟩
    rw [alike.next?_eq]
  refine next.bind ?_
  rintro b _ rfl
  exact rest b

/-- A rule that asks for a line end agrees if both its answers do. Before the end of the source alike cursors
may differ in the fact asked for, and there the two answers have to come to the same. -/
theorem agree_newlineAhead {p p' : Parser γ} {q q' : Parser δ} (yes : Agree n S p q)
    (no : Agree n S p' q') (atEnd : ∀ c, c.next? = some .ending → (p' c).result = (p c).result)
    (atEnd' : ∀ c, c.next? = some .ending → (q' c).result = (q c).result) :
    Agree n S (newlineAhead >>= fun b => if b = true then p else p')
      (newlineAhead >>= fun b => if b = true then q else q') := by
  intro c d alike short
  have same : Match S (if c.breaks = true then p else p') c (if d.breaks = true then q else q') d := by
    rcases alike.breaks with same | ending
    · rw [same]
      cases d.breaks with
      | true => exact yes c d alike short
      | false => exact no c d alike short
    · have first := atEnd c ending
      have second := atEnd' d (alike.next?_eq ▸ ending)
      have matched := yes c d alike short
      cases c.breaks <;> cases d.breaks <;>
        simpa only [Match, Fails, Gives, first, second, if_true, Bool.false_eq_true, if_false] using matched
  simpa [Match] using same

/-! Loops -/

theorem Agree.rounds {p : Parser (List α × Bool)} {q : Parser (List β × Bool)}
    (round : Agree n (fun x y => List.Forall₂ R x.1 y.1 ∧ x.2 = y.2) p q) :
    ∀ bound bound' : List Lexeme, bound.length = bound'.length →
      Agree n (List.Forall₂ R) (Parser.rounds p bound) (Parser.rounds q bound') := by
  intro bound
  induction bound with
  | nil =>
    intro bound' length
    obtain rfl : bound' = [] := List.length_eq_zero_iff.mp length.symm
    refine round.bind ?_
    rintro ⟨found, again⟩ ⟨found', _⟩ ⟨same, rfl⟩
    cases again with
    | true => exact agree_fail
    | false => exact agree_pure same
  | cons _ bound ih =>
    intro bound' length
    obtain _ | ⟨_, bound'⟩ := bound'
    · cases length
    · refine round.bind ?_
      rintro ⟨found, again⟩ ⟨found', _⟩ ⟨same, rfl⟩
      cases again with
      | true =>
        refine (ih bound' (by simpa using length)).bind fun more more' related => ?_
        exact agree_pure (List.rel_append same related)
      | false => exact agree_pure same

theorem Agree.loop {p : Parser (List α × Bool)} {q : Parser (List β × Bool)}
    (round : Agree n (fun x y => List.Forall₂ R x.1 y.1 ∧ x.2 = y.2) p q) :
    Agree n (List.Forall₂ R) (Parser.loop p) (Parser.loop q) :=
  fun c d alike short => round.rounds c.rest d.rest alike.length_eq c d alike short

theorem Agree.many {p : Parser α} {q : Parser β} (agree : Agree n R p q) :
    Agree n (List.Forall₂ R) (Parser.many p) (Parser.many q) := by
  refine Agree.loop (agree.optional.bind ?_)
  rintro _ _ (⟨same⟩ | _)
  · exact agree_pure ⟨.cons same .nil, rfl⟩
  · exact agree_pure ⟨.nil, rfl⟩

theorem agree_manyTokens {select : Token → Option α} :
    Agree n (List.Forall₂ Eq) (manyTokens select) (manyTokens select) :=
  Agree.loop <| agree_accept (Nat.le_succ _) (fun _ _ _ => agree_pure ⟨.cons rfl .nil, rfl⟩)
    (agree_pure ⟨.nil, rfl⟩)

theorem Agree.separated {p : Parser α} {q : Parser β} (agree : Agree n R p q) :
    Agree n (List.Forall₂ R) (Parser.separated p) (Parser.separated q) := by
  refine agree.bind fun first first' same => ?_
  refine Agree.bind (R := List.Forall₂ R) (Agree.loop (agree_take (Nat.le_succ _) ?_ ?_))
    fun rest rest' related => ?_
  · exact agree.bind fun v w same => agree_pure ⟨.cons same .nil, rfl⟩
  · exact agree_pure ⟨.nil, rfl⟩
  · exact agree_pure (.cons same related)

end Parser

end EcmaFold
