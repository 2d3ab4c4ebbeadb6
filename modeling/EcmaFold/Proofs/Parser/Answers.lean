import EcmaFold.Proofs.Parser.Outcome
import EcmaFold.Proofs.Parser.Position
import Mathlib.Data.List.Nodup

/-!
Parsers that give the same answer, and what an answer tells. Agreement of results is not enough here: the whole reply
counts, with what it reports as missed. One judgement carries four facts through every combinator: two parsers reply the
same, a reply reports only failures that explain a rejection, a parser that has to does report one when it fails, and a
result comes with the number of lexemes that were taken for it.
-/

namespace EcmaFold

namespace Failure

/-- The failure explains a rejection of the source: it names something, each thing once, at a place in the source that
no trivia stands at. -/
structure Explains (source : Bytes) (failure : Failure) : Prop where
  inside : failure.offset ≤ source.length
  noTrivia : Trivia.piece? (source.drop failure.offset) = none
  nonempty : failure.expected ≠ []
  nodup : failure.expected.Nodup

/-- Something was reported at the place or behind it. -/
def Reported (place : Nat) (failure : Option Failure) : Prop := ∃ found ∈ failure, place ≤ found.offset

theorem Reported.mono {place place' : Nat} {failure : Option Failure} (reported : Reported place failure)
    (before : place' ≤ place) : Reported place' failure := by
  obtain ⟨found, isFound, behind⟩ := reported
  exact ⟨found, isFound, Nat.le_trans before behind⟩

/-- What is joined explains as its parts do. -/
theorem merge_explains {source : Bytes} {earlier later : Option Failure}
    (first : ∀ found ∈ earlier, found.Explains source) (second : ∀ found ∈ later, found.Explains source) :
    ∀ found ∈ merge earlier later, found.Explains source := by
  intro found isFound
  unfold merge at isFound
  split at isFound
  · exact second found isFound
  · exact first found isFound
  · rename_i before after
    split at isFound
    · cases isFound
      exact second _ rfl
    · split at isFound
      · cases isFound
        exact first _ rfl
      · cases isFound
        obtain ⟨inside, noTrivia, nonempty, nodup⟩ := first before rfl
        refine ⟨inside, noTrivia, by simp [nonempty], ?_⟩
        refine List.Nodup.append nodup ((second after rfl).nodup.filter _) fun missed isEarlier isLater => ?_
        simp [isEarlier] at isLater

/-- Two failures join into one that lies as far to the right as either. -/
theorem exists_merge (before after : Failure) : ∃ joined, merge (some before) (some after) = some joined ∧
    before.offset ≤ joined.offset ∧ after.offset ≤ joined.offset := by
  unfold merge
  by_cases farther : before.offset < after.offset
  · exact ⟨after, if_pos farther, Nat.le_of_lt farther, Nat.le_refl _⟩
  · simp only [if_neg farther]
    by_cases nearer : after.offset < before.offset
    · exact ⟨before, if_pos nearer, Nat.le_refl _, Nat.le_of_lt nearer⟩
    · exact ⟨_, if_neg nearer, Nat.le_refl _, Nat.le_of_not_lt farther⟩

theorem Reported.merge_left {place : Nat} {earlier later : Option Failure} (reported : Reported place earlier) :
    Reported place (merge earlier later) := by
  obtain ⟨before, rfl, behind⟩ := reported
  cases later with
  | none => exact ⟨before, rfl, behind⟩
  | some after =>
    obtain ⟨joined, same, farther, -⟩ := exists_merge before after
    exact ⟨joined, same, Nat.le_trans behind farther⟩

theorem Reported.merge_right {place : Nat} {earlier later : Option Failure} (reported : Reported place later) :
    Reported place (merge earlier later) := by
  obtain ⟨after, rfl, behind⟩ := reported
  cases earlier with
  | none => exact ⟨after, rfl, behind⟩
  | some before =>
    obtain ⟨joined, same, -, farther⟩ := exists_merge before after
    exact ⟨joined, same, Nat.le_trans behind farther⟩

end Failure

namespace Parser

variable {α β γ : Type} {source : Bytes}

/-! Replies of combinators -/

theorem bind_of_fails {p : Parser α} {f : α → Parser β} {c : Cursor} (stuck : p.Fails c) :
    (p >>= f) c = ⟨none, (p c).failure⟩ := by
  change Parser.bind p f c = _
  unfold Parser.bind
  rcases reply : p c with ⟨_ | success, failure⟩
  · rfl
  · simp [Fails, reply] at stuck

theorem bind_of_gives {p : Parser α} {f : α → Parser β} {c between : Cursor} {v : α} (run : p.Gives c v between) :
    (p >>= f) c = ⟨(f v between).result, Failure.merge (p c).failure (f v between).failure⟩ := by
  change Parser.bind p f c = _
  unfold Parser.bind
  rcases reply : p c with ⟨_ | success, failure⟩
  · simp [Gives, reply] at run
  · have same : success = (v, between) := by simpa [Gives, reply] using run
    subst same
    rfl

theorem bind_pure_self (p : Parser α) : (p >>= pure) = p := by
  funext c
  change Parser.bind p Parser.pure c = _
  unfold Parser.bind
  rcases reply : p c with ⟨_ | ⟨v, after⟩, _ | failure⟩ <;> rfl

theorem either_of_fails {p q : Parser α} {c : Cursor} (stuck : p.Fails c) :
    (p <|> q) c = ⟨(q c).result, Failure.merge (p c).failure (q c).failure⟩ := by
  change either p q c = _
  unfold either
  rcases reply : p c with ⟨_ | success, failure⟩
  · rfl
  · simp [Fails, reply] at stuck

theorem either_of_gives {p q : Parser α} {c after : Cursor} {v : α} (run : p.Gives c v after) : (p <|> q) c = p c := by
  change either p q c = _
  unfold either
  rcases reply : p c with ⟨_ | success, failure⟩
  · simp [Gives, reply] at run
  · rfl

/-! The judgement -/

/-- What a reply tells of a source: all it reports explains a rejection; if it has to be `told`, a failure is reported
at the next token or behind it; a result leads on in the source, and `R` relates its value to the number of lexemes
taken. -/
structure Tells (source : Bytes) (c : Cursor) (told : Bool) (R : α → Nat → Prop) (reply : Reply α) : Prop where
  explains : ∀ found ∈ reply.failure, found.Explains source
  reports : told = true → reply.result = none → Failure.Reported c.offset reply.failure
  leads : ∀ v after, reply.result = some (v, after) → c.Leads after ∧ after.rest ≠ [] ∧
    ∃ taken, after.rest.length + taken = c.rest.length ∧ R v taken

/-- With at most `n` lexemes of the source left, the parsers give the same reply, and it tells. -/
def Answers (source : Bytes) (n : Nat) (told : Bool) (R : α → Nat → Prop) (p q : Parser α) : Prop :=
  ∀ c : Cursor, c.Of source → c.rest.length ≤ n → p c = q c ∧ Tells source c told R (p c)

variable {n m : Nat} {told : Bool} {R : α → Nat → Prop} {S : β → Nat → Prop}

theorem Answers.mono {p q : Parser α} (answers : Answers source n told R p q) (fewer : m ≤ n) :
    Answers source m told R p q :=
  fun c of short => answers c of (Nat.le_trans short fewer)

theorem Answers.weaken {R' : α → Nat → Prop} {told' : Bool} {p q : Parser α} (answers : Answers source n told R p q)
    (weaker : ∀ v taken, R v taken → R' v taken) (less : told' = true → told = true) :
    Answers source n told' R' p q := by
  intro c of short
  obtain ⟨same, explains, reports, leads⟩ := answers c of short
  refine ⟨same, explains, fun isTold => reports (less isTold), fun v after run => ?_⟩
  obtain ⟨on, nonempty, taken, length, related⟩ := leads v after run
  exact ⟨on, nonempty, taken, length, weaker v taken related⟩

/-- What may fail without a word need not be told. -/
theorem Answers.quiet {p q : Parser α} (answers : Answers source n true R p q) : Answers source n told R p q :=
  answers.weaken (fun _ _ related => related) fun _ => rfl

theorem Answers.congr {p q : Parser α} (answers : Answers source n told R p p)
    (same : ∀ c : Cursor, c.Of source → c.rest.length ≤ n → q c = p c) : Answers source n told R p q :=
  fun c of short => ⟨(same c of short).symm, (answers c of short).2⟩

theorem answers_pure {v : α} (related : R v 0) : Answers source n told R (pure v) (pure v) := by
  intro c of _
  refine ⟨rfl, by rintro _ ⟨⟩, fun _ => by rintro ⟨⟩, ?_⟩
  rintro _ _ ⟨⟩
  exact ⟨.refl c, of.ne_nil, 0, rfl, related⟩

theorem answers_fail : Answers source n false R (fail : Parser α) fail :=
  fun _ _ _ => ⟨rfl, by rintro _ ⟨⟩, by rintro ⟨⟩, by rintro _ _ ⟨⟩⟩

/-- No cursor of the source is without a lexeme. -/
theorem answers_zero {p q : Parser α} : Answers source 0 told R p q :=
  fun _ of short => absurd (List.length_eq_zero_iff.mp (Nat.le_zero.mp short)) of.ne_nil

/-- One after the other. What follows has as many lexemes less as were taken. -/
theorem Answers.bindLess {p q : Parser α} {f g : α → Parser β} (first : Answers source n told R p q)
    (next : ∀ v taken, R v taken → Answers source (n - taken) told (fun w more => S w (taken + more)) (f v) (g v)) :
    Answers source n told S (p >>= f) (q >>= g) := by
  intro c of short
  obtain ⟨same, explains, reports, leads⟩ := first c of short
  rcases fails_or_gives p c with stuck | ⟨v, between, run⟩
  · have stuck' : q.Fails c := by
      unfold Fails at stuck ⊢
      rwa [← same]
    rw [bind_of_fails stuck, bind_of_fails stuck', ← same]
    exact ⟨rfl, explains, fun isTold _ => reports isTold stuck, by rintro _ _ ⟨⟩⟩
  · have run' : q.Gives c v between := by
      unfold Gives at run ⊢
      rwa [← same]
    obtain ⟨on, nonempty, taken, length, related⟩ := leads v between run
    obtain ⟨same', explains', reports', leads'⟩ :=
      next v taken related between (of.leads on nonempty) (by omega)
    rw [bind_of_gives run, bind_of_gives run', ← same, ← same']
    refine ⟨rfl, Failure.merge_explains explains explains', fun isTold stuck => ?_, fun w after run => ?_⟩
    · exact ((reports' isTold stuck).mono (of.offset_le on nonempty)).merge_right
    · obtain ⟨on', nonempty', more, length', related'⟩ := leads' w after run
      exact ⟨on.trans on', nonempty', taken + more, by omega, related'⟩

theorem Answers.bind {p q : Parser α} {f g : α → Parser β} (first : Answers source n told R p q)
    (next : ∀ v taken, R v taken → Answers source n told (fun w more => S w (taken + more)) (f v) (g v)) :
    Answers source n told S (p >>= f) (q >>= g) :=
  first.bindLess fun v taken related => (next v taken related).mono (Nat.sub_le n taken)

theorem Answers.map {p q : Parser α} {f : α → β} (answers : Answers source n told R p q)
    (keeps : ∀ v taken, R v taken → S (f v) taken) : Answers source n told S (f <$> p) (f <$> q) :=
  answers.bind fun v taken related => answers_pure (keeps v taken related)

/-- A choice is told of what its last alternative misses. -/
theorem Answers.either {p p' q q' : Parser α} (first : Answers source n false R p q)
    (second : Answers source n told R p' q') : Answers source n told R (p <|> p') (q <|> q') := by
  intro c of short
  obtain ⟨same, explains, -, leads⟩ := first c of short
  obtain ⟨same', explains', reports', leads'⟩ := second c of short
  rcases fails_or_gives p c with stuck | ⟨v, after, run⟩
  · have stuck' : q.Fails c := by
      unfold Fails at stuck ⊢
      rwa [← same]
    rw [either_of_fails stuck, either_of_fails stuck', ← same, ← same']
    refine ⟨rfl, Failure.merge_explains explains explains', fun isTold none => ?_, leads'⟩
    exact (reports' isTold none).merge_right
  · have run' : q.Gives c v after := by
      unfold Gives at run ⊢
      rwa [← same]
    rw [either_of_gives run, either_of_gives run', ← same]
    refine ⟨rfl, explains, fun _ none => ?_, leads⟩
    rw [show (p c).result = _ from run] at none
    cases none

theorem Answers.optional {p q : Parser α} {S : Option α → Nat → Prop} (answers : Answers source n false R p q)
    (present : ∀ v taken, R v taken → S (some v) taken) (absent : S none 0) :
    Answers source n told S (Parser.optional p) (Parser.optional q) :=
  Answers.either (answers.map present) (answers_pure absent)

/-! Places and lookahead -/

/-- A question that takes nothing and reports nothing. -/
theorem answers_ask {ask : Parser α} {f g : α → Parser β}
    (silent : ∀ c, ∃ v, ask c = ⟨some (v, c), none⟩) (next : ∀ v, Answers source n told S (f v) (g v)) :
    Answers source n told S (ask >>= f) (ask >>= g) := by
  have asked : Answers source n told (fun _ taken => taken = 0) ask ask := by
    intro c of short
    obtain ⟨v, reply⟩ := silent c
    rw [reply]
    refine ⟨rfl, by rintro _ ⟨⟩, fun _ => by rintro ⟨⟩, ?_⟩
    rintro _ _ ⟨⟩
    exact ⟨.refl c, of.ne_nil, 0, rfl, rfl⟩
  refine asked.bind ?_
  rintro v _ rfl
  simpa only [Nat.zero_add] using next v

theorem answers_offset {f g : Nat → Parser β} (next : ∀ start, Answers source n told S (f start) (g start)) :
    Answers source n told S (offset >>= f) (offset >>= g) :=
  answers_ask (fun _ => ⟨_, rfl⟩) next

theorem answers_reached {f g : Nat → Parser β} (next : ∀ stop, Answers source n told S (f stop) (g stop)) :
    Answers source n told S (reached >>= f) (reached >>= g) :=
  answers_ask (fun _ => ⟨_, rfl⟩) next

theorem answers_ahead {symbol : Symbol} {f g : Bool → Parser β} (next : ∀ b, Answers source n told S (f b) (g b)) :
    Answers source n told S (ahead symbol >>= f) (ahead symbol >>= g) :=
  answers_ask (fun _ => ⟨_, rfl⟩) next

theorem answers_newlineAhead {f g : Bool → Parser β} (next : ∀ b, Answers source n told S (f b) (g b)) :
    Answers source n told S (newlineAhead >>= f) (newlineAhead >>= g) :=
  answers_ask (fun _ => ⟨_, rfl⟩) next

/-- What is built has to be related wherever it is placed. -/
theorem Answers.spanned {p q : Parser (Span → α)}
    (answers : Answers source n told (fun build taken => ∀ span, R (build span) taken) p q) :
    Answers source n told R (Parser.spanned p) (Parser.spanned q) := by
  refine answers_offset fun start => answers.bind fun build taken related => ?_
  exact answers_reached fun stop => answers_pure (related ⟨start, stop⟩)

/-! Tokens -/

/-- Something missed at the next token explains a rejection. -/
theorem explains_miss {c : Cursor} (of : c.Of source) (expectation : Expectation) :
    Failure.Explains source ⟨c.offset, [expectation]⟩ :=
  ⟨of.offset_le_length, of.noTrivia, List.cons_ne_nil _ _, by simp⟩

theorem answers_miss {expectation : Expectation} {f g : Unit → Parser β}
    (next : Answers source n told S (f ()) (g ())) :
    Answers source n told S (miss expectation >>= f) (miss expectation >>= g) := by
  have missed : Answers source n told (fun _ taken => taken = 0) (miss expectation) (miss expectation) := by
    intro c of short
    refine ⟨rfl, ?_, fun _ => by rintro ⟨⟩, ?_⟩
    · rintro _ ⟨⟩
      exact explains_miss of expectation
    · rintro _ _ ⟨⟩
      exact ⟨.refl c, of.ne_nil, 0, rfl, rfl⟩
  refine missed.bind ?_
  rintro _ _ rfl
  simpa only [Nat.zero_add] using next

theorem answers_failMissing {expectation : Expectation} :
    Answers source n told R (failMissing expectation : Parser α) (failMissing expectation) := by
  intro c of short
  refine ⟨rfl, ?_, fun _ _ => ⟨_, rfl, Nat.le_refl _⟩, by rintro _ _ ⟨⟩⟩
  rintro _ ⟨⟩
  exact explains_miss of expectation

/-- Taking a token lowers the number of lexemes for what follows. -/
theorem answers_accept {select : Token → Option α} {f g : Option α → Parser β} (atEnd : select .ending = none)
    (bound : n ≤ m + 1)
    (found : ∀ t v, select t = some v → Answers source m told (fun w more => S w (1 + more)) (f (some v)) (g (some v)))
    (missing : Answers source n told S (f none) (g none)) :
    Answers source n told S (accept select >>= f) (accept select >>= g) := by
  intro c of short
  obtain ⟨stop, _ | ⟨lexeme, rest⟩⟩ := c
  · exact absurd rfl of.ne_nil
  cases chosen : select lexeme.token with
  | none =>
    have run : accept select ⟨stop, lexeme :: rest⟩ = ⟨some (none, ⟨stop, lexeme :: rest⟩), Option.none⟩ := by
      simp only [accept, chosen]
    have gives : (accept select).Gives ⟨stop, lexeme :: rest⟩ none ⟨stop, lexeme :: rest⟩ := by rw [Gives, run]
    rw [bind_of_gives gives, bind_of_gives gives, run]
    exact missing _ of short
  | some v =>
    have run : accept select ⟨stop, lexeme :: rest⟩ = ⟨some (some v, ⟨lexeme.span.stop, rest⟩), Option.none⟩ := by
      simp only [accept, chosen]
    have gives : (accept select).Gives ⟨stop, lexeme :: rest⟩ (some v) ⟨lexeme.span.stop, rest⟩ := by rw [Gives, run]
    have going : lexeme.token ≠ .ending := by
      intro ending
      rw [ending, atEnd] at chosen
      cases chosen
    obtain ⟨stands, -, behind⟩ := of.next (.inl going)
    rw [List.length_cons] at short
    obtain ⟨same, explains, reports, leads⟩ := found lexeme.token v chosen ⟨lexeme.span.stop, rest⟩ behind
      (by simp only; omega)
    rw [bind_of_gives gives, bind_of_gives gives, run, ← same]
    refine ⟨rfl, explains, fun isTold stuck => (reports isTold stuck).mono ?_, fun w after run => ?_⟩
    · exact Nat.le_trans (Nat.le_of_lt stands.start_lt) behind.stop_le_offset
    · obtain ⟨on, nonempty, more, length, related⟩ := leads w after run
      exact ⟨.next on, nonempty, 1 + more, by simp only [List.length_cons] at length ⊢; omega, related⟩

theorem isSpelled_ending (symbol : Symbol) : symbol.isSpelled .ending = false := by
  cases symbol <;> rfl

/-- Each rule for a symbol takes it if it is next; they differ in what they do otherwise. -/
theorem take_eq (symbol : Symbol) (f : Bool → Parser β) : (take symbol >>= f) =
    accept (fun token => if symbol.isSpelled token then some () else none) >>= fun o => f o.isSome := by
  funext c
  obtain ⟨stop, _ | ⟨lexeme, rest⟩⟩ := c
  · rfl
  · cases spelled : symbol.isSpelled lexeme.token <;>
      simp only [Bind.bind, take, Functor.map, Parser.bind, accept, spelled] <;> rfl

theorem probe_eq (symbol : Symbol) (f : Bool → Parser β) : (probe symbol >>= f) =
    take symbol >>= fun b => if b = true then f true else miss (.symbol symbol) >>= fun _ => f false := by
  funext c
  obtain ⟨stop, _ | ⟨lexeme, rest⟩⟩ := c
  · rfl
  · cases spelled : symbol.isSpelled lexeme.token <;>
      simp only [Bind.bind, probe, take, Functor.map, Parser.bind, accept, spelled] <;> rfl

theorem require_eq (symbol : Symbol) (f : Unit → Parser β) : (require symbol >>= f) =
    take symbol >>= fun b => if b = true then f () else fail := by
  funext c
  obtain ⟨stop, _ | ⟨lexeme, rest⟩⟩ := c
  · rfl
  · cases spelled : symbol.isSpelled lexeme.token <;>
      simp only [Bind.bind, require, take, Functor.map, Parser.bind, accept, spelled] <;> rfl

theorem expect_eq (symbol : Symbol) (f : Unit → Parser β) : (expect symbol >>= f) =
    take symbol >>= fun b => if b = true then f () else failMissing (.symbol symbol) := by
  funext c
  obtain ⟨stop, _ | ⟨lexeme, rest⟩⟩ := c
  · rfl
  · cases spelled : symbol.isSpelled lexeme.token <;>
      simp only [Bind.bind, expect, probe, take, Functor.map, Parser.bind, accept, spelled] <;> rfl

theorem answers_take {symbol : Symbol} {p p' q q' : Parser β} (bound : n ≤ m + 1)
    (yes : Answers source m told (fun w more => S w (1 + more)) p q) (no : Answers source n told S p' q') :
    Answers source n told S (take symbol >>= fun b => if b = true then p else p')
      (take symbol >>= fun b => if b = true then q else q') := by
  rw [take_eq, take_eq]
  refine answers_accept ?_ bound (fun _ _ _ => yes) no
  simp [isSpelled_ending]

theorem answers_probe {symbol : Symbol} {p p' q q' : Parser β} (bound : n ≤ m + 1)
    (yes : Answers source m told (fun w more => S w (1 + more)) p q) (no : Answers source n told S p' q') :
    Answers source n told S (probe symbol >>= fun b => if b = true then p else p')
      (probe symbol >>= fun b => if b = true then q else q') := by
  rw [probe_eq, probe_eq]
  exact answers_take bound yes (answers_miss no)

theorem answers_require {symbol : Symbol} {p q : Parser β}
    (rest : Answers source n false (fun w more => S w (1 + more)) p q) :
    Answers source (n + 1) false S (require symbol >>= fun _ => p) (require symbol >>= fun _ => q) := by
  rw [require_eq, require_eq]
  exact answers_take (Nat.le_refl _) rest answers_fail

theorem answers_expect_first {symbol : Symbol} {p q : Parser β}
    (rest : Answers source n told (fun w more => S w (1 + more)) p q) :
    Answers source (n + 1) told S (expect symbol >>= fun _ => p) (expect symbol >>= fun _ => q) := by
  rw [expect_eq, expect_eq]
  exact answers_take (Nat.le_refl _) rest answers_failMissing

theorem answers_expect {symbol : Symbol} {p q : Parser β}
    (rest : Answers source n told (fun w more => S w (1 + more)) p q) :
    Answers source n told S (expect symbol >>= fun _ => p) (expect symbol >>= fun _ => q) :=
  (answers_expect_first rest).mono (Nat.le_succ n)

theorem answers_identifier? {f g : Option Bytes → Parser β} (bound : n ≤ m + 1)
    (found : ∀ name, Answers source m told (fun w more => S w (1 + more)) (f (some name)) (g (some name)))
    (missing : Answers source n told S (f none) (g none)) :
    Answers source n told S (identifier? >>= f) (identifier? >>= g) :=
  answers_accept rfl bound (fun _ name _ => found name) missing

theorem answers_identifier : Answers source n told (fun _ taken => taken = 1) identifier identifier :=
  answers_accept rfl (Nat.le_succ _) (fun _ _ _ => answers_pure rfl) answers_failMissing

/-! Loops -/

/-- What a round finds is good, and a round that is not the last takes a lexeme. -/
def GoesOn (Q : α → Prop) (found : List α × Bool) (taken : Nat) : Prop :=
  (∀ v ∈ found.1, Q v) ∧ (found.2 = true → 1 ≤ taken)

/-- A loop has enough rounds whenever its bound is as long as the lexemes left, and a longer bound changes nothing. -/
theorem Answers.rounds {Q : α → Prop} {p q : Parser (List α × Bool)} (round : Answers source n told (GoesOn Q) p q)
    (bound bound' : List Lexeme) (enough : n ≤ bound.length) (enough' : n ≤ bound'.length) :
    Answers source n told (fun all _ => ∀ v ∈ all, Q v) (Parser.rounds p bound) (Parser.rounds q bound') := by
  induction bound generalizing n bound' with
  | nil =>
    obtain rfl := Nat.le_zero.mp enough
    exact answers_zero
  | cons _ bound ih =>
    obtain _ | ⟨_, bound'⟩ := bound'
    · obtain rfl := Nat.le_zero.mp enough'
      exact answers_zero
    rw [List.length_cons] at enough enough'
    refine round.bindLess ?_
    rintro ⟨found, again⟩ taken ⟨good, goesOn⟩
    cases again with
    | false => exact answers_pure good
    | true =>
      have positive := goesOn rfl
      have rest := ih (round.mono (Nat.sub_le n taken)) bound' (by omega) (by omega)
      exact rest.bind fun more _ goodMore => answers_pure (List.forall_mem_append.mpr ⟨good, goodMore⟩)

theorem Answers.loop {Q : α → Prop} {p q : Parser (List α × Bool)} (round : Answers source n told (GoesOn Q) p q) :
    Answers source n told (fun all _ => ∀ v ∈ all, Q v) (Parser.loop p) (Parser.loop q) :=
  fun c of short => (round.mono short).rounds c.rest c.rest (Nat.le_refl _) (Nat.le_refl _) c of (Nat.le_refl _)

/-- Each of them has to take a lexeme. -/
def Eats (Q : α → Prop) (v : α) (taken : Nat) : Prop := Q v ∧ 1 ≤ taken

/-- One more, or the last round if none matches. -/
def manyRound (p : Parser α) : Parser (List α × Bool) := do
  match ← Parser.optional p with
  | some value => return ([value], true)
  | none => return ([], false)

theorem many_eq (p : Parser α) : many p = loop (manyRound p) := rfl

/-- One more token, or the last round if `select` gives no value for it. -/
def tokenRound (select : Token → Option α) : Parser (List α × Bool) := do
  match ← accept select with
  | some value => return ([value], true)
  | none => return ([], false)

theorem manyTokens_eq (select : Token → Option α) : manyTokens select = loop (tokenRound select) := rfl

/-- A comma and one more behind it, or the last round if there is no comma. -/
def commaRound (p : Parser α) : Parser (List α × Bool) := do
  if ← take (.punct .comma) then
    let value ← p
    return ([value], true)
  else return ([], false)

theorem separated_eq (p : Parser α) : separated p = (do
    let first ← p
    let rest ← loop (commaRound p)
    return first :: rest) := rfl

theorem Answers.manyRound {Q : α → Prop} {p q : Parser α} (answers : Answers source n false (Eats Q) p q) :
    Answers source n told (GoesOn Q) (manyRound p) (manyRound q) := by
  refine Answers.bind (R := fun o taken => ∀ v ∈ o, Eats Q v taken) ?_ ?_
  · exact answers.optional (by rintro v _ eats _ ⟨⟩; exact eats) (by rintro _ ⟨⟩)
  · rintro (_ | v) taken eats
    · exact answers_pure ⟨List.forall_mem_nil _, by rintro ⟨⟩⟩
    · obtain ⟨good, positive⟩ := eats v rfl
      exact answers_pure ⟨List.forall_mem_singleton.mpr good, fun _ => positive⟩

theorem Answers.many {Q : α → Prop} {p q : Parser α} (answers : Answers source n false (Eats Q) p q) :
    Answers source n told (fun all _ => ∀ v ∈ all, Q v) (Parser.many p) (Parser.many q) := by
  rw [many_eq, many_eq]
  exact answers.manyRound.loop

theorem answers_tokenRound {select : Token → Option α} (atEnd : select .ending = none) :
    Answers source n told (GoesOn fun _ => True) (tokenRound select) (tokenRound select) := by
  refine answers_accept atEnd (Nat.le_succ _) (fun _ _ _ => answers_pure ?_) (answers_pure ?_)
  · exact ⟨fun _ _ => trivial, fun _ => Nat.le_refl _⟩
  · exact ⟨fun _ _ => trivial, by rintro ⟨⟩⟩

theorem answers_manyTokens {select : Token → Option α} (atEnd : select .ending = none) :
    Answers source n told (fun _ _ => True) (manyTokens select) (manyTokens select) := by
  rw [manyTokens_eq]
  exact (answers_tokenRound atEnd).loop.weaken (fun _ _ _ => trivial) id

theorem Answers.commaRound {Q : α → Prop} {p q : Parser α} (answers : Answers source n told (Eats Q) p q) :
    Answers source n told (GoesOn Q) (commaRound p) (commaRound q) := by
  refine answers_take (Nat.le_succ _) (answers.bind fun v more eats => answers_pure ?_) (answers_pure ?_)
  · exact ⟨List.forall_mem_singleton.mpr eats.1, fun _ => Nat.le_add_right _ _⟩
  · exact ⟨List.forall_mem_nil _, by rintro ⟨⟩⟩

theorem Answers.separated {Q : α → Prop} {p q : Parser α} (answers : Answers source n told (Eats Q) p q) :
    Answers source n told (Eats fun all => ∀ v ∈ all, Q v) (Parser.separated p) (Parser.separated q) := by
  rw [separated_eq, separated_eq]
  refine answers.bind fun first taken eats => answers.commaRound.loop.bind fun rest more good => answers_pure ?_
  exact ⟨List.forall_mem_cons.mpr ⟨eats.1, good⟩, Nat.le_trans eats.2 (Nat.le_add_right _ _)⟩

end Parser

end EcmaFold
