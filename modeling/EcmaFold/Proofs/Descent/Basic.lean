import EcmaFold.Descent.Basic
import EcmaFold.Proofs.Lexer.Gap
import EcmaFold.Proofs.Parser.Answers

/-!
A descent over bytes that follows a parser over lexemes. The cursor of the descent stands at an offset, that
of the parser behind some of the lexemes; they meet when the offset is that behind the last lexeme taken, or
when only trivia lies between. From where they meet the one matches if the other does, with the same value and
the same report of what was missed, and they meet again behind it. Each combinator keeps this, whatever a
failed production does to the cursor of the descent.
-/

namespace EcmaFold

/-! Failures joined -/

namespace Failure

@[simp] theorem merge_none (earlier : Option Failure) : merge earlier none = earlier := by
  cases earlier <;> rfl

@[simp] theorem none_merge (later : Option Failure) : merge none later = later := by
  cases later <;> rfl

theorem merge_assoc (first second third : Option Failure) :
    merge (merge first second) third = merge first (merge second third) := by
  cases first with
  | none => rw [none_merge, none_merge]
  | some a =>
    cases second with
    | none => rw [merge_none, none_merge]
    | some b =>
      cases third with
      | none => rw [merge_none, merge_none]
      | some c =>
        -- Only the failures farthest to the right stay, and only those at one offset are joined.
        rcases Nat.lt_trichotomy a.offset b.offset with ab | ab | ab <;>
          rcases Nat.lt_trichotomy b.offset c.offset with bc | bc | bc <;>
          simp [merge, ab, bc, Nat.lt_asymm] <;> grind

end Failure

/-! Replies of parsers -/

namespace Parser

variable {α β γ : Type}

theorem bind_assoc (p : Parser α) (f : α → Parser β) (g : β → Parser γ) :
    (p >>= f >>= g) = p >>= fun v => f v >>= g := by
  funext c
  rcases fails_or_gives p c with stuck | ⟨v, between, run⟩
  · rw [bind_of_fails stuck, bind_of_fails (bind_fails.mpr (.inl stuck)), bind_of_fails stuck]
  · rw [bind_of_gives run]
    rcases fails_or_gives (f v) between with stuck | ⟨w, after, run'⟩
    · rw [bind_of_fails stuck, bind_of_fails (bind_fails.mpr (.inr ⟨v, between, run, stuck⟩)), bind_of_gives run]
    · rw [bind_of_gives run', bind_of_gives (bind_gives.mpr ⟨v, between, run, run'⟩), bind_of_gives run,
        Failure.merge_assoc]

/-- Only where the first parser leads to is asked how to go on. -/
theorem bind_congr_at {p : Parser α} {f f' : α → Parser β} {c : Cursor}
    (same : ∀ v between, p.Gives c v between → f v between = f' v between) : (p >>= f) c = (p >>= f') c := by
  rcases fails_or_gives p c with stuck | ⟨v, between, run⟩
  · rw [bind_of_fails stuck, bind_of_fails stuck]
  · rw [bind_of_gives run, bind_of_gives run, same v between run]

theorem bind_of_same {p q : Parser α} {c : Cursor} (same : p c = q c) (f : α → Parser β) :
    (p >>= f) c = (q >>= f) c := by
  change Parser.bind p f c = Parser.bind q f c
  rw [Parser.bind, Parser.bind, same]

theorem spanned_eq (p : Parser (Span → α)) (c : Cursor) : spanned p c =
    (p >>= fun build => reached >>= fun stop => pure (build ⟨c.offset, stop⟩)) c := rfl

theorem map_spanned_eq (f : α → β) (p : Parser (Span → α)) (c : Cursor) : (f <$> spanned p) c =
    (p >>= fun build => reached >>= fun stop => pure (f (build ⟨c.offset, stop⟩))) c := by
  change (spanned p >>= fun v => pure (f v)) c = _
  rw [spanned, bind_assoc]
  change ((p >>= fun build => reached >>= fun stop => pure (build ⟨c.offset, stop⟩)) >>= fun v => pure (f v)) c = _
  rw [bind_assoc]
  rfl

end Parser

/-! The next lexeme -/

/-- Lexemes begin behind the trivia. -/
theorem Lexeme.scanFrom_behind_gap (offset : Nat) (newline : Bool) (bytes : Bytes) : scanFrom 0 offset newline bytes =
    scanFrom 0 (offset + (Trivia.gap bytes).width) (newline || (Trivia.gap bytes).newline)
      (bytes.drop (Trivia.gap bytes).width) := by
  induction bytes using Trivia.gap_induction generalizing offset newline with
  | stops bytes noTrivia => simp [Trivia.gap_of_none noTrivia]
  | piece text rest ends isPiece ih =>
    rw [scanFrom_of_piece isPiece.piece? rfl isPiece.ne_nil, ih, Trivia.gap_of_piece isPiece]
    simp only [List.drop_append, List.drop_of_length_le (Nat.le_add_right _ _), List.nil_append,
      Nat.add_sub_cancel_left, Nat.add_assoc, Bool.or_assoc]

namespace Cursor

theorem Steps.leads {c after : Cursor} {t : Token} (step : c.Steps t after) : c.Leads after := by
  obtain ⟨newline, span, rest, atRest, rfl⟩ := step
  obtain ⟨stop, _⟩ := c
  obtain rfl : _ = _ := atRest
  exact .next (.refl _)

/-- The lexemes left are those that are read from the stop of the cursor on. -/
structure Scanned (source : Bytes) (c : Cursor) : Prop where
  of : c.Of source
  scanned : c.rest = Lexeme.scanFrom 0 c.stop false (source.drop c.stop)

variable {source : Bytes} {c : Cursor}

theorem scanned_ofSource (source : Bytes) : (ofSource source).Scanned source := ⟨of_ofSource source, rfl⟩

/-- Behind the trivia at the stop of a cursor stands its next lexeme, with the line ends in them. -/
theorem Scanned.rest_eq (scanned : c.Scanned source) :
    c.rest = Lexeme.scanFrom 0 (Scanner.skip ⟨source, c.stop⟩).offset (Scanner.newlineAhead ⟨source, c.stop⟩)
      (Scanner.skip ⟨source, c.stop⟩).rest := by
  rw [scanned.scanned, Lexeme.scanFrom_behind_gap, Bool.false_or, Scanner.rest_skip]
  rfl

/-- Passing over trivia leads to the offset of the cursor. -/
theorem Scanned.skip (scanned : c.Scanned source) : Scanner.skip ⟨source, c.stop⟩ = ⟨source, c.offset⟩ := by
  have rest := scanned.rest_eq
  have noTrivia := Lexeme.piece?_behind_gap 0 (Scanner.rest ⟨source, c.stop⟩)
  rw [← Trivia.gap, ← Scanner.rest_skip] at noTrivia
  change (⟨source, (Scanner.skip ⟨source, c.stop⟩).offset⟩ : Scanner) = _
  rw [offset, rest]
  cases atNext : (Scanner.skip ⟨source, c.stop⟩).rest with
  | nil => rfl
  | cons b tail =>
    rw [atNext] at noTrivia
    rw [Lexeme.scanFrom_of_read noTrivia]

/-- A line ends before the next lexeme if one does in the trivia. -/
theorem Scanned.newlineAhead (scanned : c.Scanned source) : Scanner.newlineAhead ⟨source, c.stop⟩ = c.breaks := by
  have noTrivia := scanned.of.noTrivia
  rw [breaks, scanned.rest_eq, scanned.skip, Scanner.rest]
  cases atNext : source.drop c.offset with
  | nil => simp [Lexeme.scanFrom]
  | cons b tail =>
    rw [atNext] at noTrivia
    simp [Lexeme.scanFrom_of_read noTrivia]

/-- Nothing is left, or a token is read, and behind it the lexemes go on. -/
theorem Scanned.next (scanned : c.Scanned source) :
    source.drop c.offset = [] ∧ c.next? = some .ending ∨
    source.drop c.offset ≠ [] ∧ ∃ rest, c.Steps (Token.read (source.drop c.offset)).1
        ⟨c.offset + (Token.read (source.drop c.offset)).2, rest⟩ ∧
      Scanned source ⟨c.offset + (Token.read (source.drop c.offset)).2, rest⟩ := by
  have noTrivia := scanned.of.noTrivia
  have rest := scanned.rest_eq
  rw [scanned.skip, Scanner.rest] at rest
  cases atNext : source.drop c.offset with
  | nil =>
    rw [atNext] at rest
    exact .inl ⟨rfl, by rw [next?, rest]; rfl⟩
  | cons b tail =>
    rw [atNext] at noTrivia rest
    rw [Lexeme.scanFrom_of_read noTrivia] at rest
    obtain ⟨width, taken⟩ := Nat.exists_eq_add_one_of_ne_zero (Nat.ne_of_gt (Token.read_width_pos b tail))
    have fits := Token.read_width_le (List.cons_ne_nil b tail)
    have behind : Lexeme.scanFrom ((Token.read (b :: tail)).2 - 1) (c.offset + 1) false tail =
        Lexeme.scanFrom 0 (c.offset + (Token.read (b :: tail)).2) false
          (source.drop (c.offset + (Token.read (b :: tail)).2)) := by
      rw [taken, List.length_cons] at fits
      rw [Lexeme.scanFrom_pending _ _ (by omega), ← List.drop_drop, atNext, taken, List.drop_succ_cons,
        Nat.add_sub_cancel, Nat.add_right_comm, Nat.add_assoc]
    have inside : c.offset + (Token.read (b :: tail)).2 ≤ source.length := by
      have length := congrArg List.length atNext
      rw [List.length_drop] at length
      have before := scanned.of.offset_le_length
      omega
    rw [behind] at rest
    have left := (Lexeme.scanFrom_inOrder false (Nat.le_refl _) inside).ne_nil
    exact .inr ⟨List.cons_ne_nil b tail, _, ⟨_, _, _, rest, rfl⟩,
      scanned.of.leads (Steps.leads ⟨_, _, _, rest, rfl⟩) left, rfl⟩

end Cursor

namespace Descent

/-! The judgement -/

/-- Where the cursor of a descent may stand: right behind the last token taken, or also behind the trivia
that follow it. -/
inductive Place where
  | close
  | loose

/-- The state of a descent meets the cursor of a parser in the source. -/
structure State.Meets (source : Bytes) (allowIn : Bool) (place : Place) (s : State) (c : Cursor) : Prop where
  scanned : c.Scanned source
  sameSource : s.scanner.source = source
  sameIn : s.allowIn = allowIn
  near : s.scanner.offset = c.stop ∨ place = .loose ∧ s.scanner.offset = c.offset

/-- What a descent leaves comes to what a parser replies. If there is a value, they meet again. -/
structure Comes (source : Bytes) (allowIn : Bool) (place : Place) {α : Type} (s : State) (c : Cursor)
    (left : Option α × State) (reply : Reply α) : Prop where
  value : left.1 = reply.result.map Prod.fst
  sameSource : left.2.scanner.source = source
  sameIn : left.2.allowIn = allowIn
  failure : left.2.failure = Failure.merge s.failure reply.failure
  meets : ∀ v after, reply.result = some (v, after) →
    left.2.Meets source allowIn place after ∧ after.rest.length ≤ c.rest.length

/-- From wherever they meet with at most `n` lexemes left, the descent comes to what the parser replies. -/
def Follows (source : Bytes) (n : Nat) (allowIn : Bool) (place behind : Place) {α : Type} (d : Descent α)
    (p : Parser α) : Prop :=
  ∀ (s : State) (c : Cursor), s.Meets source allowIn place c → c.rest.length ≤ n →
    Comes source allowIn behind s c (d s) (p c)

variable {α β γ : Type} {source : Bytes} {n m : Nat} {allowIn : Bool} {x y z : Place} {s : State} {c : Cursor}

/-- Right behind the last token is in any case near enough. -/
theorem State.Meets.loosen (meets : s.Meets source allowIn .close c) : s.Meets source allowIn x c where
  scanned := meets.scanned
  sameSource := meets.sameSource
  sameIn := meets.sameIn
  near := .inl (meets.near.resolve_right fun loose => by cases loose.1)

theorem State.Meets.scanner (meets : s.Meets source allowIn .close c) : s.scanner = ⟨source, c.stop⟩ := by
  obtain ⟨⟨_, offset⟩, _, _⟩ := s
  obtain ⟨-, rfl, -, near⟩ := meets
  obtain rfl : offset = c.stop := near.resolve_right fun loose => by cases loose.1
  rfl

/-- Passing over trivia leads to the next token, from wherever they meet. -/
theorem State.Meets.skip (meets : s.Meets source allowIn x c) : s.scanner.skip = ⟨source, c.offset⟩ := by
  obtain ⟨⟨_, offset⟩, _, _⟩ := s
  obtain ⟨scanned, rfl, -, rfl | ⟨-, rfl⟩⟩ := meets
  · exact scanned.skip
  · exact Scanner.skip_eq_self scanned.of.noTrivia

/-- The cursor may be moved to the next token. -/
theorem State.Meets.skipped (meets : s.Meets source allowIn x c) :
    State.Meets source allowIn .loose { s with scanner := s.scanner.skip } c where
  scanned := meets.scanned
  sameSource := congrArg Scanner.source meets.skip
  sameIn := meets.sameIn
  near := .inr ⟨rfl, congrArg Scanner.offset meets.skip⟩

theorem Follows.mono {d : Descent α} {p : Parser α} (follows : Follows source n allowIn x y d p) (fewer : m ≤ n) :
    Follows source m allowIn x y d p :=
  fun s c meets short => follows s c meets (Nat.le_trans short fewer)

/-- What follows from anywhere follows from right behind the last token. -/
theorem Follows.close {d : Descent α} {p : Parser α} (follows : Follows source n allowIn .loose y d p) :
    Follows source n allowIn x y d p := by
  cases x with
  | loose => exact follows
  | close => exact fun s c meets short => follows s c meets.loosen short

theorem Follows.loosen {d : Descent α} {p : Parser α} (follows : Follows source n allowIn x .close d p) :
    Follows source n allowIn x y d p := by
  intro s c meets short
  have comes := follows s c meets short
  refine ⟨comes.value, comes.sameSource, comes.sameIn, comes.failure, fun v after run => ?_⟩
  obtain ⟨behind, fewer⟩ := comes.meets v after run
  exact ⟨behind.loosen, fewer⟩

/-- A parser that replies the same wherever the source can be read from may take the place of another. -/
theorem Follows.congr {d : Descent α} {p q : Parser α} (follows : Follows source n allowIn x y d p)
    (same : ∀ c : Cursor, c.Of source → q c = p c) : Follows source n allowIn x y d q := by
  intro s c meets short
  rw [same c meets.scanned.of]
  exact follows s c meets short

theorem follows_pure {v : α} : Follows source n allowIn x x (pure v) (pure v) := by
  intro s c meets _
  refine ⟨rfl, meets.sameSource, meets.sameIn, (Failure.merge_none _).symm, ?_⟩
  rintro _ _ ⟨⟩
  exact ⟨meets, Nat.le_refl _⟩

theorem follows_fail : Follows source n allowIn x y (fail : Descent α) Parser.fail :=
  fun _ _ meets _ => ⟨rfl, meets.sameSource, meets.sameIn, (Failure.merge_none _).symm, by rintro _ _ ⟨⟩⟩

/-- What is behind a failure does not matter. -/
theorem follows_fail_bind {f : α → Descent β} {g : α → Parser β} :
    Follows source n allowIn x y (fail >>= f) (Parser.fail >>= g) :=
  fun s c meets short => (follows_fail s c meets short : Comes _ _ _ s c (none, s) ⟨none, none⟩)

theorem bind_of_none {d : Descent α} {f : α → Descent β} {left : State} (run : d s = (none, left)) :
    (d >>= f) s = (none, left) := by
  change Descent.bind d f s = _
  rw [Descent.bind, run]

theorem bind_of_some {d : Descent α} {f : α → Descent β} {v : α} {left : State} (run : d s = (some v, left)) :
    (d >>= f) s = f v left := by
  change Descent.bind d f s = _
  rw [Descent.bind, run]

theorem bind_assoc (d : Descent α) (f : α → Descent β) (g : β → Descent γ) :
    (d >>= f >>= g) = d >>= fun v => f v >>= g := by
  funext s
  rcases run : d s with ⟨_ | v, left⟩
  · rw [bind_of_none (bind_of_none run), bind_of_none run]
  · rw [bind_of_some run]
    rcases run' : f v left with ⟨_ | w, left'⟩
    · rw [bind_of_none ((bind_of_some run).trans run'), bind_of_none run']
    · rw [bind_of_some ((bind_of_some run).trans run'), bind_of_some run']

theorem bind_pure_self (d : Descent α) : (d >>= pure) = d := by
  funext s
  rcases run : d s with ⟨_ | v, left⟩
  · rw [bind_of_none run]
  · rw [bind_of_some run]
    rfl

theorem Comes.of_fails {d : Descent α} {p : Parser α} (comes : Comes source allowIn x s c (d s) (p c))
    (stuck : p.Fails c) : d s = (none, (d s).2) := by
  have value := comes.value
  rw [show (p c).result = none from stuck] at value
  exact Prod.ext value rfl

theorem Comes.of_gives {d : Descent α} {p : Parser α} (comes : Comes source allowIn x s c (d s) (p c)) {v : α}
    {after : Cursor} (run : p.Gives c v after) : d s = (some v, (d s).2) := by
  have value := comes.value
  rw [show (p c).result = _ from run] at value
  exact Prod.ext value rfl

/-- What comes from a place farther on, where nothing more is missed, comes from here. -/
theorem Comes.before {left : Option α × State} {reply : Reply α} {between : State} {after : Cursor}
    (comes : Comes source allowIn x between after left reply) (same : between.failure = s.failure)
    (fewer : after.rest.length ≤ c.rest.length) : Comes source allowIn x s c left reply := by
  refine ⟨comes.value, comes.sameSource, comes.sameIn, same ▸ comes.failure, fun v last run => ?_⟩
  obtain ⟨behind, fewer'⟩ := comes.meets v last run
  exact ⟨behind, Nat.le_trans fewer' fewer⟩

/-- What comes behind a value counts from where that leads. -/
theorem Comes.bind {d : Descent α} {p : Parser α} {f : α → Descent β} {g : α → Parser β}
    (first : Comes source allowIn y s c (d s) (p c))
    (next : ∀ v between, p.Gives c v between → State.Meets source allowIn y (d s).2 between →
      between.rest.length ≤ c.rest.length → Comes source allowIn z (d s).2 between (f v (d s).2) (g v between)) :
    Comes source allowIn z s c ((d >>= f) s) ((p >>= g) c) := by
  rcases Parser.fails_or_gives p c with stuck | ⟨v, between, run⟩
  · rw [bind_of_none (first.of_fails stuck), Parser.bind_of_fails stuck]
    exact ⟨rfl, first.sameSource, first.sameIn, first.failure, by rintro _ _ ⟨⟩⟩
  · obtain ⟨meets, fewer⟩ := first.meets v between run
    have behind := next v between run meets fewer
    rw [bind_of_some (first.of_gives run), Parser.bind_of_gives run]
    refine ⟨behind.value, behind.sameSource, behind.sameIn, ?_, fun w after last => ?_⟩
    · rw [behind.failure, first.failure, Failure.merge_assoc]
    · obtain ⟨meets', fewer'⟩ := behind.meets w after last
      exact ⟨meets', Nat.le_trans fewer' fewer⟩

/-- One after the other. -/
theorem Follows.bind {d : Descent α} {p : Parser α} {f : α → Descent β} {g : α → Parser β}
    (first : Follows source n allowIn x y d p) (next : ∀ v, Follows source n allowIn y z (f v) (g v)) :
    Follows source n allowIn x z (d >>= f) (p >>= g) := by
  intro s c meets short
  exact (first s c meets short).bind fun v _ _ behind fewer => next v _ _ behind (Nat.le_trans fewer short)

theorem Follows.map {d : Descent α} {p : Parser α} {f : α → β} (follows : Follows source n allowIn x y d p) :
    Follows source n allowIn x y (f <$> d) (f <$> p) :=
  follows.bind fun _ => follows_pure

/-! Choice -/

/-- The cursor is back where it was, and what was missed is not forgotten. -/
theorem State.Meets.reset (meets : s.Meets source allowIn x c) {left : State}
    (sameSource : left.scanner.source = source) (sameIn : left.allowIn = allowIn) :
    State.Meets source allowIn x { left with scanner := left.scanner.moveTo s.scanner.offset } c where
  scanned := meets.scanned
  sameSource := sameSource
  sameIn := sameIn
  near := meets.near

theorem either_of_none {d d' : Descent α} {left : State} (run : d s = (none, left)) :
    (d <|> d') s = d' { left with scanner := left.scanner.moveTo s.scanner.offset } := by
  change Descent.either d d' s = _
  simp only [Descent.either, Bind.bind, Descent.bind, mark, attempt, run, reset]

theorem either_of_some {d d' : Descent α} {v : α} {left : State} (run : d s = (some v, left)) :
    (d <|> d') s = (some v, left) := by
  change Descent.either d d' s = _
  simp only [Descent.either, Bind.bind, Descent.bind, mark, attempt, run]
  rfl

theorem Follows.either {d d' : Descent α} {p p' : Parser α} (first : Follows source n allowIn x y d p)
    (second : Follows source n allowIn x y d' p') : Follows source n allowIn x y (d <|> d') (p <|> p') := by
  intro s c meets short
  have comes := first s c meets short
  rcases Parser.fails_or_gives p c with stuck | ⟨v, after, run⟩
  · have again := second _ c (meets.reset comes.sameSource comes.sameIn) short
    rw [either_of_none (comes.of_fails stuck), Parser.either_of_fails stuck]
    refine ⟨again.value, again.sameSource, again.sameIn, ?_, again.meets⟩
    rw [again.failure, comes.failure, Failure.merge_assoc]
  · rw [either_of_some (comes.of_gives run), Parser.either_of_gives run, ← comes.of_gives run]
    exact comes

theorem Follows.optional {d : Descent α} {p : Parser α} (follows : Follows source n allowIn x .close d p) :
    Follows source n allowIn x x (Descent.optional d) (Parser.optional p) :=
  Follows.either follows.loosen.map follows_pure

/-! Places -/

theorem follows_start : Follows source n allowIn x .loose start Parser.offset := by
  intro s c meets _
  refine ⟨?_, meets.skipped.sameSource, meets.sameIn, (Failure.merge_none _).symm, ?_⟩
  · exact congrArg (fun t : Scanner => some t.offset) meets.skip
  · rintro _ _ ⟨⟩
    exact ⟨meets.skipped, Nat.le_refl _⟩

theorem follows_mark : Follows source n allowIn .close .close mark Parser.reached := by
  intro s c meets _
  refine ⟨?_, meets.sameSource, meets.sameIn, (Failure.merge_none _).symm, ?_⟩
  · exact congrArg (fun t : Scanner => some t.offset) meets.scanner
  · rintro _ _ ⟨⟩
    exact ⟨meets, Nat.le_refl _⟩

/-- What is built is placed from the next token up to the last one taken. -/
theorem Follows.spanned {d : Descent (Span → α)} {p : Parser (Span → α)}
    (follows : Follows source n allowIn .loose .close d p) :
    Follows source n allowIn x .close (Descent.spanned d) (Parser.spanned p) :=
  follows_start.bind fun _ => follows.bind fun _ => follows_mark.bind fun _ => follows_pure

/-- What is built of the value of a parser that is placed, whatever the place, is built of what is found instead. -/
theorem Follows.rebuild {d : Descent γ} {build : γ → Span → α} {p : Parser (Span → α)} {f : α → β} {f' : γ → β}
    (follows : Follows source n allowIn x .close (build <$> d) p)
    (same : ∀ found span, f (build found span) = f' found) :
    Follows source n allowIn x .close (f' <$> d) (f <$> Parser.spanned p) := by
  intro s c meets short
  have comes := follows s c meets short
  rw [Parser.map_spanned_eq]
  rcases run : d s with ⟨_ | found, left⟩
  · rw [show (build <$> d) s = _ from bind_of_none run] at comes
    have stuck : p.Fails c := Option.map_eq_none_iff.mp comes.value.symm
    rw [show (f' <$> d) s = _ from bind_of_none run, Parser.bind_of_fails stuck]
    exact ⟨rfl, comes.sameSource, comes.sameIn, comes.failure, by rintro _ _ ⟨⟩⟩
  · rw [show (build <$> d) s = _ from bind_of_some run] at comes
    obtain ⟨⟨_, after⟩, reply, isBuild⟩ := Option.map_eq_some_iff.mp comes.value.symm
    obtain rfl : _ = build found := isBuild
    rw [show (f' <$> d) s = _ from bind_of_some run, Parser.bind_of_gives reply]
    refine ⟨?_, comes.sameSource, comes.sameIn, ?_, ?_⟩
    · exact congrArg some (same found _).symm
    · exact comes.failure.trans (congrArg (Failure.merge _) (Failure.merge_none _).symm)
    · rintro _ _ ⟨⟩
      exact comes.meets _ _ reply

theorem follows_newlineAhead : Follows source n allowIn .close .close newlineAhead Parser.newlineAhead := by
  intro s c meets _
  refine ⟨?_, meets.sameSource, meets.sameIn, (Failure.merge_none _).symm, ?_⟩
  · change some s.scanner.newlineAhead = some c.breaks
    rw [meets.scanner, meets.scanned.newlineAhead]
  · rintro _ _ ⟨⟩
    exact ⟨meets, Nat.le_refl _⟩

theorem follows_miss {expectation : Expectation} :
    Follows source n allowIn x x (miss expectation) (Parser.miss expectation) := by
  intro s c meets _
  refine ⟨rfl, meets.sameSource, meets.sameIn, ?_, ?_⟩
  · change Failure.merge s.failure (some ⟨s.scanner.skip.offset, [expectation]⟩) = _
    rw [meets.skip]
    rfl
  · rintro _ _ ⟨⟩
    exact ⟨⟨meets.scanned, meets.sameSource, meets.sameIn, meets.near⟩, Nat.le_refl _⟩

theorem follows_failMissing {expectation : Expectation} :
    Follows source n allowIn x y (failMissing expectation : Descent α) (Parser.failMissing expectation) :=
  (follows_miss (x := x)).bind fun _ => follows_fail

theorem follows_failMissing_bind {expectation : Expectation} {f : α → Descent β} {g : α → Parser β} :
    Follows source n allowIn x y (failMissing expectation >>= f) (Parser.failMissing expectation >>= g) := by
  rw [failMissing, bind_assoc, Parser.failMissing, Parser.bind_assoc]
  exact (follows_miss (x := x)).bind fun _ => follows_fail_bind

/-! The operator `in` -/

theorem Follows.withIn {allowed : Bool} {d : Descent α} {p : Parser α} (follows : Follows source n allowed x y d p) :
    Follows source n allowIn x y (Descent.withIn allowed d) p := by
  intro s c meets short
  have comes := follows { s with allowIn := allowed } c ⟨meets.scanned, meets.sameSource, rfl, meets.near⟩ short
  refine ⟨comes.value, comes.sameSource, meets.sameIn, comes.failure, fun v after run => ?_⟩
  obtain ⟨behind, fewer⟩ := comes.meets v after run
  exact ⟨⟨behind.scanned, behind.sameSource, meets.sameIn, behind.near⟩, fewer⟩

/-! Loops -/

/-- A round of a parser that is not the last takes a lexeme. -/
def Shortens (source : Bytes) (round : Parser (List α × Bool)) : Prop :=
  ∀ (c after : Cursor) (found : List α), c.Of source → round.Gives c (found, true) after →
    after.rest.length < c.rest.length

/-- As many rounds as there are lexemes left are enough for either. -/
theorem Follows.rounds {d : Descent (List α × Bool)} {p : Parser (List α × Bool)}
    (round : Follows source n allowIn x x d p) (shortens : Shortens source p) (limit : Nat) (bound : List Lexeme)
    (s : State) (c : Cursor) (meets : s.Meets source allowIn x c) (short : c.rest.length ≤ n)
    (enough : c.rest.length ≤ limit) (enough' : c.rest.length ≤ bound.length) :
    Comes source allowIn x s c (Descent.rounds d limit s) (Parser.rounds p bound c) := by
  have positive := List.length_pos_iff.mpr meets.scanned.of.ne_nil
  induction limit generalizing bound s c with
  | zero => exact absurd positive (Nat.not_lt.mpr enough)
  | succ limit ih =>
    obtain _ | ⟨_, bound⟩ := bound
    · exact absurd positive (Nat.not_lt.mpr enough')
    rw [List.length_cons] at enough'
    refine (round s c meets short).bind ?_
    rintro ⟨found, again⟩ between run behind fewer
    cases again with
    | false => exact follows_pure _ _ behind (Nat.le_refl _)
    | true =>
      have shorter := shortens c between found meets.scanned.of run
      have more := ih bound (d s).2 between behind (by omega) (by omega) (by omega)
        (List.length_pos_iff.mpr behind.scanned.of.ne_nil)
      exact more.bind fun rest _ _ last _ => follows_pure _ _ last (Nat.le_refl _)

theorem Follows.loop {d : Descent (List α × Bool)} {p : Parser (List α × Bool)}
    (round : Follows source n allowIn x x d p) (shortens : Shortens source p) :
    Follows source n allowIn x x (Descent.loop d) (Parser.loop p) := by
  intro s c meets short
  refine round.rounds shortens (s.scanner.source.length + 1) c.rest s c meets short ?_ (Nat.le_refl _)
  rw [meets.sameSource]
  exact Nat.le_trans meets.scanned.of.suffix.length_le (Lexeme.length_scan_le source)

end Descent

end EcmaFold
