import EcmaFold.Parser.Basic

/-!
What a parser does at a cursor: it gives a value and the cursor behind it, or it fails. Every combinator
has one law for each of the two, so that a proof about a production never looks at a `Reply`.
-/

namespace EcmaFold

namespace Cursor

/-- The next token. -/
def next? (c : Cursor) : Option Token := c.rest.head?.map (·.token)

/-- Whether a line ends before the next token. -/
def breaks (c : Cursor) : Bool := c.rest.head?.any (·.newline)

/-- The next token is `t`, and `after` stands behind it. -/
def Steps (c : Cursor) (t : Token) (after : Cursor) : Prop :=
  ∃ newline span rest, c.rest = ⟨t, newline, span⟩ :: rest ∧ after = ⟨span.stop, rest⟩

theorem Steps.next? {c after : Cursor} {t : Token} (step : c.Steps t after) : c.next? = some t := by
  obtain ⟨newline, span, rest, atRest, -⟩ := step
  simp [Cursor.next?, atRest]

theorem Steps.rest_length {c after : Cursor} {t : Token} (step : c.Steps t after) :
    after.rest.length + 1 = c.rest.length := by
  obtain ⟨newline, span, rest, atRest, rfl⟩ := step
  simp [atRest]

theorem Steps.unique {c after after' : Cursor} {t t' : Token} (step : c.Steps t after)
    (step' : c.Steps t' after') : t = t' ∧ after = after' := by
  obtain ⟨newline, span, rest, atRest, rfl⟩ := step
  obtain ⟨newline', span', rest', atRest', rfl⟩ := step'
  rw [atRest] at atRest'
  cases atRest'
  exact ⟨rfl, rfl⟩

/-- A cursor with a next token can step over it. -/
theorem exists_steps {c : Cursor} {t : Token} (next : c.next? = some t) : ∃ after, c.Steps t after := by
  unfold Cursor.next? at next
  cases atRest : c.rest with
  | nil => simp [atRest] at next
  | cons head rest =>
    obtain ⟨token, newline, span⟩ := head
    simp only [atRest, List.head?_cons, Option.map_some, Option.some.injEq] at next
    subst next
    exact ⟨_, newline, span, rest, atRest, rfl⟩

end Cursor

@[simp] theorem Symbol.isSpelled_punct {p : Punct} {t : Token} :
    Symbol.isSpelled (.punct p) t = true ↔ t = .punct p := by
  cases t <;> simp [Symbol.isSpelled, eq_comm]

@[simp] theorem Symbol.isSpelled_word {w : Word} {t : Token} :
    Symbol.isSpelled (.word w) t = true ↔ t = .keyword w := by
  cases t <;> simp [Symbol.isSpelled, eq_comm]

@[simp] theorem Symbol.not_isSpelled_punct {p : Punct} {t : Token} :
    Symbol.isSpelled (.punct p) t = false ↔ t ≠ .punct p := by
  rw [← Bool.not_eq_true, isSpelled_punct]

@[simp] theorem Symbol.not_isSpelled_word {w : Word} {t : Token} :
    Symbol.isSpelled (.word w) t = false ↔ t ≠ .keyword w := by
  rw [← Bool.not_eq_true, isSpelled_word]

namespace Parser

variable {α β : Type}

/-- The parser succeeds at a cursor with a value and stops at another cursor. -/
def Gives (p : Parser α) (c : Cursor) (v : α) (after : Cursor) : Prop := (p c).result = some (v, after)

/-- The parser does not succeed at a cursor. -/
def Fails (p : Parser α) (c : Cursor) : Prop := (p c).result = none

theorem Gives.not_fails {p : Parser α} {c after : Cursor} {v : α} (run : p.Gives c v after) :
    ¬ p.Fails c := by
  intro fails
  simp [Gives, Fails] at run fails
  simp [fails] at run

theorem fails_or_gives (p : Parser α) (c : Cursor) : p.Fails c ∨ ∃ v after, p.Gives c v after := by
  unfold Fails Gives
  cases (p c).result with
  | none => exact .inl rfl
  | some success => exact .inr ⟨success.1, success.2, rfl⟩

/-! Sequencing -/

@[simp] theorem pure_gives {v w : α} {c after : Cursor} :
    (pure v : Parser α).Gives c w after ↔ w = v ∧ after = c := by
  simp [Gives, Pure.pure, Parser.pure, eq_comm]

@[simp] theorem pure_fails {v : α} {c : Cursor} : (pure v : Parser α).Fails c ↔ False := by
  simp [Fails, Pure.pure, Parser.pure]

@[simp] theorem bind_gives {p : Parser α} {f : α → Parser β} {c after : Cursor} {w : β} :
    (p >>= f).Gives c w after ↔ ∃ v between, p.Gives c v between ∧ (f v).Gives between w after := by
  simp only [Gives, Bind.bind, Parser.bind]
  rcases p c with ⟨_ | ⟨v, between⟩, failure⟩
  · simp
  · simp [and_assoc]

@[simp] theorem bind_fails {p : Parser α} {f : α → Parser β} {c : Cursor} :
    (p >>= f).Fails c ↔ p.Fails c ∨ ∃ v between, p.Gives c v between ∧ (f v).Fails between := by
  simp only [Gives, Fails, Bind.bind, Parser.bind]
  rcases p c with ⟨_ | ⟨v, between⟩, failure⟩
  · simp
  · simp [and_assoc]

@[simp] theorem map_gives {p : Parser α} {f : α → β} {c after : Cursor} {w : β} :
    (f <$> p).Gives c w after ↔ ∃ v, p.Gives c v after ∧ w = f v := by
  have asBind : f <$> p = p >>= fun v => pure (f v) := rfl
  simp [asBind]

@[simp] theorem map_fails {p : Parser α} {f : α → β} {c : Cursor} : (f <$> p).Fails c ↔ p.Fails c := by
  have asBind : f <$> p = p >>= fun v => pure (f v) := rfl
  simp [asBind]

@[simp] theorem fail_gives {v : α} {c after : Cursor} : (fail : Parser α).Gives c v after ↔ False := by
  simp [Gives, fail]

@[simp] theorem fail_fails {c : Cursor} : (fail : Parser α).Fails c ↔ True := by
  simp [Fails, fail]

@[simp] theorem miss_gives {expectation : Expectation} {u : Unit} {c after : Cursor} :
    (miss expectation).Gives c u after ↔ after = c := by
  simp [Gives, miss, eq_comm]

@[simp] theorem miss_fails {expectation : Expectation} {c : Cursor} :
    (miss expectation).Fails c ↔ False := by
  simp [Fails, miss]

@[simp] theorem failMissing_gives {expectation : Expectation} {v : α} {c after : Cursor} :
    (failMissing expectation : Parser α).Gives c v after ↔ False := by
  simp [failMissing]

@[simp] theorem failMissing_fails {expectation : Expectation} {c : Cursor} :
    (failMissing expectation : Parser α).Fails c ↔ True := by
  simp [failMissing]

/-! Choice -/

@[simp] theorem either_gives {p q : Parser α} {c after : Cursor} {v : α} :
    (p <|> q).Gives c v after ↔ p.Gives c v after ∨ p.Fails c ∧ q.Gives c v after := by
  have asEither : (p <|> q) = either p q := rfl
  simp only [asEither, Gives, Fails, either]
  rcases p c with ⟨_ | success, failure⟩
  · simp
  · simp

@[simp] theorem either_fails {p q : Parser α} {c : Cursor} :
    (p <|> q).Fails c ↔ p.Fails c ∧ q.Fails c := by
  have asEither : (p <|> q) = either p q := rfl
  simp only [asEither, Fails, either]
  rcases p c with ⟨_ | success, failure⟩
  · simp
  · simp

@[simp] theorem optional_gives {p : Parser α} {c after : Cursor} {o : Option α} :
    (optional p).Gives c o after ↔
      (∃ v, o = some v ∧ p.Gives c v after) ∨ o = none ∧ p.Fails c ∧ after = c := by
  have asChoice : optional p = (some <$> p <|> pure none) := rfl
  simp only [asChoice, either_gives, map_gives, map_fails, pure_gives]
  grind

/-! Places -/

@[simp] theorem offset_gives {n : Nat} {c after : Cursor} :
    offset.Gives c n after ↔ n = c.offset ∧ after = c := by
  simp [Gives, offset, eq_comm]

@[simp] theorem offset_fails {c : Cursor} : offset.Fails c ↔ False := by
  simp [Fails, offset]

@[simp] theorem reached_gives {n : Nat} {c after : Cursor} :
    reached.Gives c n after ↔ n = c.stop ∧ after = c := by
  simp [Gives, reached, eq_comm]

@[simp] theorem reached_fails {c : Cursor} : reached.Fails c ↔ False := by
  simp [Fails, reached]

@[simp] theorem spanned_gives {p : Parser (Span → α)} {c after : Cursor} {v : α} :
    (spanned p).Gives c v after ↔
      ∃ build, p.Gives c build after ∧ v = build ⟨c.offset, after.stop⟩ := by
  simp only [spanned, bind_gives, offset_gives, reached_gives, pure_gives]
  grind

@[simp] theorem spanned_fails {p : Parser (Span → α)} {c : Cursor} : (spanned p).Fails c ↔ p.Fails c := by
  simp [spanned, and_assoc]

/-! Tokens -/

theorem accept_gives {select : Token → Option α} {c after : Cursor} {o : Option α} :
    (accept select).Gives c o after ↔
      (∃ t v, c.Steps t after ∧ select t = some v ∧ o = some v) ∨
        (∀ t ∈ c.next?, select t = none) ∧ o = none ∧ after = c := by
  obtain ⟨stop, _ | ⟨⟨token, newline, span⟩, rest⟩⟩ := c
  · simp [Gives, accept, Cursor.Steps, Cursor.next?]
    grind
  · cases found : select token <;>
      simp only [Gives, accept, Cursor.Steps, Cursor.next?, found, List.head?_cons] <;> grind

@[simp] theorem accept_gives_some {select : Token → Option α} {c after : Cursor} {v : α} :
    (accept select).Gives c (some v) after ↔ ∃ t, c.Steps t after ∧ select t = some v := by
  simp [accept_gives]

@[simp] theorem accept_gives_none {select : Token → Option α} {c after : Cursor} :
    (accept select).Gives c none after ↔ (∀ t ∈ c.next?, select t = none) ∧ after = c := by
  simp [accept_gives]

@[simp] theorem accept_fails {select : Token → Option α} {c : Cursor} :
    (accept select).Fails c ↔ False := by
  obtain ⟨stop, _ | ⟨⟨token, newline, span⟩, rest⟩⟩ := c
  · simp [Fails, accept]
  · cases found : select token <;> simp [Fails, accept, found]

@[simp] theorem ahead_gives {symbol : Symbol} {b : Bool} {c after : Cursor} :
    (ahead symbol).Gives c b after ↔ b = c.next?.any symbol.isSpelled ∧ after = c := by
  obtain ⟨stop, _ | ⟨head, rest⟩⟩ := c <;> simp [Gives, ahead, Cursor.next?, eq_comm]

@[simp] theorem ahead_fails {symbol : Symbol} {c : Cursor} : (ahead symbol).Fails c ↔ False := by
  simp [Fails, ahead]

@[simp] theorem newlineAhead_gives {b : Bool} {c after : Cursor} :
    newlineAhead.Gives c b after ↔ b = c.breaks ∧ after = c := by
  simp [Gives, newlineAhead, Cursor.breaks, eq_comm]

@[simp] theorem newlineAhead_fails {c : Cursor} : newlineAhead.Fails c ↔ False := by
  simp [Fails, newlineAhead]

@[simp] theorem take_gives_true {symbol : Symbol} {c after : Cursor} :
    (take symbol).Gives c true after ↔ ∃ t, c.Steps t after ∧ symbol.isSpelled t = true := by
  simp [take, Option.exists]

@[simp] theorem take_gives_false {symbol : Symbol} {c after : Cursor} :
    (take symbol).Gives c false after ↔ (∀ t ∈ c.next?, symbol.isSpelled t = false) ∧ after = c := by
  simp [take]

@[simp] theorem take_fails {symbol : Symbol} {c : Cursor} : (take symbol).Fails c ↔ False := by
  simp [take]

@[simp] theorem probe_gives_true {symbol : Symbol} {c after : Cursor} :
    (probe symbol).Gives c true after ↔ ∃ t, c.Steps t after ∧ symbol.isSpelled t = true := by
  simp [probe]

@[simp] theorem probe_gives_false {symbol : Symbol} {c after : Cursor} :
    (probe symbol).Gives c false after ↔ (∀ t ∈ c.next?, symbol.isSpelled t = false) ∧ after = c := by
  simp [probe, and_assoc]

@[simp] theorem probe_fails {symbol : Symbol} {c : Cursor} : (probe symbol).Fails c ↔ False := by
  simp [probe]

@[simp] theorem require_gives {symbol : Symbol} {u : Unit} {c after : Cursor} :
    (require symbol).Gives c u after ↔ ∃ t, c.Steps t after ∧ symbol.isSpelled t = true := by
  simp [require]

@[simp] theorem require_fails {symbol : Symbol} {c : Cursor} :
    (require symbol).Fails c ↔ ∀ t ∈ c.next?, symbol.isSpelled t = false := by
  simp [require]

@[simp] theorem expect_gives {symbol : Symbol} {u : Unit} {c after : Cursor} :
    (expect symbol).Gives c u after ↔ ∃ t, c.Steps t after ∧ symbol.isSpelled t = true := by
  simp [expect]

@[simp] theorem expect_fails {symbol : Symbol} {c : Cursor} :
    (expect symbol).Fails c ↔ ∀ t ∈ c.next?, symbol.isSpelled t = false := by
  simp [expect]

@[simp] theorem nameOf?_eq_some {t : Token} {name : Bytes} : nameOf? t = some name ↔ t = .name name := by
  cases t <;> simp [nameOf?]

/-! Loops -/

theorem rounds_gives_mono {round : Parser (List α × Bool)} {bound bound' : List Lexeme} {c after : Cursor}
    {all : List α} (run : (rounds round bound).Gives c all after) (longer : bound.length ≤ bound'.length) :
    (rounds round bound').Gives c all after := by
  induction bound generalizing bound' c all after with
  | nil =>
    simp only [rounds, bind_gives] at run
    obtain ⟨⟨found, again⟩, between, first, rest⟩ := run
    cases again with
    | true => simp at rest
    | false =>
      cases bound' with
      | nil => simp only [rounds, bind_gives]; exact ⟨_, _, first, rest⟩
      | cons _ _ => simp only [rounds, bind_gives]; exact ⟨_, _, first, rest⟩
  | cons _ bound ih =>
    obtain _ | ⟨head, bound'⟩ := bound'
    · simp at longer
    · simp only [rounds, bind_gives] at run ⊢
      obtain ⟨⟨found, again⟩, between, first, rest⟩ := run
      refine ⟨_, _, first, ?_⟩
      cases again with
      | false => exact rest
      | true =>
        simp only [if_true, bind_gives] at rest ⊢
        obtain ⟨more, last, tail, final⟩ := rest
        exact ⟨more, last, ih tail (by simpa using longer), final⟩

theorem loop_gives_last {round : Parser (List α × Bool)} {c after : Cursor} {found : List α}
    (run : round.Gives c (found, false) after) : (loop round).Gives c found after := by
  have once : (rounds round []).Gives c found after := by
    simp only [rounds, bind_gives]
    exact ⟨_, _, run, by simp⟩
  exact rounds_gives_mono once (by simp)

theorem loop_gives_again {round : Parser (List α × Bool)} {c between after : Cursor} {found rest : List α}
    (run : round.Gives c (found, true) between) (shorter : between.rest.length < c.rest.length)
    (more : (loop round).Gives between rest after) : (loop round).Gives c (found ++ rest) after := by
  change (rounds round c.rest).Gives c (found ++ rest) after
  cases atRest : c.rest with
  | nil => simp [atRest] at shorter
  | cons head tail =>
    simp only [rounds, bind_gives]
    refine ⟨_, _, run, ?_⟩
    simp only [if_true, bind_gives, pure_gives]
    have enough : between.rest.length ≤ tail.length := by simp [atRest] at shorter; omega
    exact ⟨rest, after, rounds_gives_mono more enough, rfl, rfl⟩

/-- What holds of the last round and is kept by a round in front holds of the whole loop. -/
theorem loop_induction {round : Parser (List α × Bool)} {motive : Cursor → List α → Cursor → Prop}
    (last : ∀ c found after, round.Gives c (found, false) after → motive c found after)
    (again : ∀ c found between rest after, round.Gives c (found, true) between →
      motive between rest after → motive c (found ++ rest) after)
    {c after : Cursor} {all : List α} (run : (loop round).Gives c all after) : motive c all after := by
  have bounded : ∀ (bound : List Lexeme) c all after,
      (rounds round bound).Gives c all after → motive c all after := by
    intro bound
    induction bound with
    | nil =>
      intro c all after run
      simp only [rounds, bind_gives] at run
      obtain ⟨⟨found, more⟩, between, first, rest⟩ := run
      cases more with
      | true => simp at rest
      | false =>
        simp only [Bool.false_eq_true, if_false, pure_gives] at rest
        obtain ⟨rfl, rfl⟩ := rest
        exact last _ _ _ first
    | cons _ bound ih =>
      intro c all after run
      simp only [rounds, bind_gives] at run
      obtain ⟨⟨found, more⟩, between, first, rest⟩ := run
      cases more with
      | false =>
        simp only [Bool.false_eq_true, if_false, pure_gives] at rest
        obtain ⟨rfl, rfl⟩ := rest
        exact last _ _ _ first
      | true =>
        simp only [if_true, bind_gives, pure_gives] at rest
        obtain ⟨rest, stop, tail, rfl, rfl⟩ := rest
        exact again _ _ _ _ _ first (ih _ _ _ tail)
  exact bounded c.rest c all after run

theorem many_gives_nil {p : Parser α} {c : Cursor} (stuck : p.Fails c) : (many p).Gives c [] c := by
  refine loop_gives_last ?_
  simp [Option.exists, stuck]

theorem many_gives_cons {p : Parser α} {c between after : Cursor} {v : α} {rest : List α}
    (run : p.Gives c v between) (shorter : between.rest.length < c.rest.length)
    (more : (many p).Gives between rest after) : (many p).Gives c (v :: rest) after := by
  refine @loop_gives_again α _ c between after [v] rest ?_ shorter more
  simp [Option.exists, run]

theorem many_induction {p : Parser α} {motive : Cursor → List α → Cursor → Prop}
    (stop : ∀ c, p.Fails c → motive c [] c)
    (step : ∀ c v between rest after, p.Gives c v between → motive between rest after →
      motive c (v :: rest) after)
    {c after : Cursor} {all : List α} (run : (many p).Gives c all after) : motive c all after := by
  refine loop_induction ?_ ?_ run
  · intro c found after first
    simp [Option.exists] at first
    obtain ⟨⟨stuck, rfl⟩, rfl⟩ := first
    exact stop _ stuck
  · intro c found between rest after first tail
    simp [Option.exists] at first
    obtain ⟨v, run, rfl⟩ := first
    exact step _ _ _ _ _ run tail

theorem manyTokens_gives_nil {select : Token → Option α} {c : Cursor}
    (stuck : ∀ t ∈ c.next?, select t = none) : (manyTokens select).Gives c [] c := by
  refine loop_gives_last ?_
  simpa [Option.exists] using stuck

theorem manyTokens_gives_cons {select : Token → Option α} {c between after : Cursor} {t : Token} {v : α}
    {rest : List α} (step : c.Steps t between) (found : select t = some v)
    (more : (manyTokens select).Gives between rest after) :
    (manyTokens select).Gives c (v :: rest) after := by
  have length := step.rest_length
  refine @loop_gives_again α _ c between after [v] rest ?_ (by omega) more
  simp only [bind_gives, Option.exists, accept_gives_some]
  exact .inr ⟨v, between, ⟨t, step, found⟩, by simp⟩

theorem manyTokens_induction {select : Token → Option α} {motive : Cursor → List α → Cursor → Prop}
    (stop : ∀ c, (∀ t ∈ c.next?, select t = none) → motive c [] c)
    (step : ∀ c t v between rest after, c.Steps t between → select t = some v →
      motive between rest after → motive c (v :: rest) after)
    {c after : Cursor} {all : List α} (run : (manyTokens select).Gives c all after) :
    motive c all after := by
  refine loop_induction ?_ ?_ run
  · intro c found after first
    simp only [bind_gives, Option.exists, accept_gives_none, accept_gives_some, pure_gives] at first
    obtain ⟨between, ⟨stuck, rfl⟩, same, rfl⟩ | ⟨v, between, _, same, _⟩ := first
    · cases same
      exact stop _ stuck
    · cases same
  · intro c found between rest after first tail
    simp only [bind_gives, Option.exists, accept_gives_none, accept_gives_some, pure_gives] at first
    obtain ⟨between, _, same, _⟩ | ⟨v, between, ⟨t, taken, found⟩, same, rfl⟩ := first
    · cases same
    · cases same
      exact step _ _ _ _ _ _ taken found tail

/-- What `separated` reads behind its first item: a comma before each of the others. -/
def furtherItems (p : Parser α) : Parser (List α) :=
  loop do
    if ← take (.punct .comma) then
      let value ← p
      return ([value], true)
    else return ([], false)

theorem separated_gives {p : Parser α} {c after : Cursor} {all : List α} :
    (separated p).Gives c all after ↔ ∃ first between rest,
      p.Gives c first between ∧ (furtherItems p).Gives between rest after ∧ all = first :: rest := by
  have unfolded : separated p = do
      let first ← p
      let rest ← furtherItems p
      return first :: rest := rfl
  simp only [unfolded, bind_gives, pure_gives]
  grind

theorem furtherItems_gives_nil {p : Parser α} {c : Cursor} (stuck : ∀ t ∈ c.next?, t ≠ .punct .comma) :
    (furtherItems p).Gives c [] c := by
  refine loop_gives_last ?_
  have missing : (take (.punct .comma)).Gives c false c := by
    simpa using stuck
  simp only [bind_gives]
  exact ⟨false, c, missing, by simp⟩

theorem furtherItems_gives_cons {p : Parser α} {c between last after : Cursor} {v : α} {rest : List α}
    (comma : c.Steps (.punct .comma) between) (run : p.Gives between v last)
    (shorter : last.rest.length ≤ between.rest.length) (more : (furtherItems p).Gives last rest after) :
    (furtherItems p).Gives c (v :: rest) after := by
  have taken : (take (.punct .comma)).Gives c true between := by simpa using comma
  have length := comma.rest_length
  refine @loop_gives_again α _ c last after [v] rest ?_ (by omega) more
  simp only [bind_gives]
  exact ⟨true, between, taken, by simpa using run⟩

theorem furtherItems_induction {p : Parser α} {motive : Cursor → List α → Cursor → Prop}
    (stop : ∀ c, motive c [] c)
    (step : ∀ c between v last rest after, c.Steps (.punct .comma) between → p.Gives between v last →
      motive last rest after → motive c (v :: rest) after)
    {c after : Cursor} {all : List α} (run : (furtherItems p).Gives c all after) :
    motive c all after := by
  refine loop_induction ?_ ?_ run
  · intro c found after first
    simp only [bind_gives, Bool.exists_bool, take_gives_false, take_gives_true] at first
    obtain ⟨between, ⟨_, rfl⟩, same⟩ | ⟨between, _, same⟩ := first
    · simp only [Bool.false_eq_true, if_false, pure_gives] at same
      obtain ⟨same, rfl⟩ := same
      cases same
      exact stop _
    · simp at same
  · intro c found between rest after first tail
    simp only [bind_gives, Bool.exists_bool, take_gives_false, take_gives_true] at first
    obtain ⟨between, _, same⟩ | ⟨between, ⟨t, comma, spelled⟩, same⟩ := first
    · simp at same
    · simp only [if_true, bind_gives, pure_gives] at same
      obtain ⟨v, last, run, same, rfl⟩ := same
      cases same
      rw [Symbol.isSpelled_punct] at spelled
      subst spelled
      exact step _ _ _ _ _ _ comma run tail

end Parser

end EcmaFold
