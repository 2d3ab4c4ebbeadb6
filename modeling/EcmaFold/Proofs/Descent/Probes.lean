import EcmaFold.Descent.Expression
import EcmaFold.Proofs.Descent.Rules

/-!
Probing for a token and taking it. Wherever a descent and a parser meet, a probe takes the next token if it selects
something of it and otherwise changes nothing, so that it comes to the parser's looking at the next lexeme.
-/

namespace EcmaFold

namespace Parser

variable {α β : Type} {select : Token → Option α} {c after : Cursor}

/-- Behind a token that is taken. -/
theorem accept_bind_of_steps {g : Option α → Parser β} {token : Token} {v : α} (steps : c.Steps token after)
    (selected : select token = some v) : (accept select >>= g) c = g (some v) after := by
  obtain ⟨newline, span, rest, atRest, rfl⟩ := steps
  have reply : accept select c = ⟨some (some v, ⟨span.stop, rest⟩), none⟩ := by
    simp only [accept, atRest, selected]
  rw [bind_of_gives (show (accept select).Gives c (some v) ⟨span.stop, rest⟩ by rw [Gives, reply]), reply,
    Failure.none_merge]

theorem accept_bind_of_none {g : Option α → Parser β} (none : ∀ token ∈ c.next?, select token = none) :
    (accept select >>= g) c = g Option.none c := by
  have reply : accept select c = ⟨some (Option.none, c), Option.none⟩ := by
    obtain ⟨stop, _ | ⟨lexeme, rest⟩⟩ := c
    · rfl
    · simp only [accept, none lexeme.token rfl]
  rw [bind_of_gives (show (accept select).Gives c Option.none c by rw [Gives, reply]), reply, Failure.none_merge]

end Parser

namespace Descent

variable {α β γ : Type} {source : Bytes} {n m : Nat} {allowIn : Bool} {x y : Place} {select : Token → Option α}

/-- The descent takes the next token if it selects something of it, and gives that. Otherwise it changes nothing. -/
def Probes (source : Bytes) (allowIn : Bool) (d : Descent (Option α)) (select : Token → Option α) : Prop :=
  ∀ (x : Place) (s : State) (c : Cursor), s.Meets source allowIn x c →
    (∃ token v after left, c.Steps token after ∧ select token = some v ∧ d s = (some (some v), left) ∧
      left.Meets source allowIn .close after ∧ left.failure = s.failure) ∨
    (∀ token ∈ c.next?, select token = none) ∧ d s = (some none, s)

theorem probes_ask {rule : Scanner → Option (α × Scanner)} (finds : Scanner.Finds source rule select) :
    Probes source allowIn (ask rule) select := by
  intro x s c meets
  rcases finds s.scanner c meets.scanned meets.skip with
    ⟨token, v, after, steps, selected, scanned, found⟩ | ⟨none, nothing⟩
  · refine .inl ⟨token, v, after, { s with scanner := ⟨source, after.stop⟩ }, steps, selected, ?_, ?_, rfl⟩
    · rw [ask, found]
    · exact ⟨scanned, rfl, meets.sameIn, .inl rfl⟩
  · exact .inr ⟨none, by rw [ask, nothing]⟩

/-- What is made of what a probe gives, as long as it is something. -/
theorem Probes.bind {d : Descent (Option α)} (probes : Probes source allowIn d select) {f : α → Option β}
    (total : ∀ token v, select token = some v → (f v).isSome) :
    Probes source allowIn (return (← d).bind f) fun token => (select token).bind f := by
  intro x s c meets
  rcases probes x s c meets with ⟨token, v, after, left, steps, selected, run, meets', same⟩ | ⟨none, run⟩
  · obtain ⟨w, made⟩ := Option.isSome_iff_exists.mp (total token v selected)
    refine .inl ⟨token, w, after, left, steps, by simp only [selected, Option.bind_some, made], ?_, meets', same⟩
    rw [bind_of_some run, Option.bind_some, made]
    rfl
  · refine .inr ⟨fun token next => by simp only [none token next, Option.bind_none], ?_⟩
    rw [bind_of_some run]
    rfl

theorem Probes.firstOf {d d' : Descent (Option α)} {select' : Token → Option α} (first : Probes source allowIn d select)
    (second : Probes source allowIn d' select') :
    Probes source allowIn (Descent.firstOf d d') fun token => (select token).or (select' token) := by
  intro x s c meets
  rcases first x s c meets with ⟨token, v, after, left, steps, selected, run, behind⟩ | ⟨none, run⟩
  · refine .inl ⟨token, v, after, left, steps, by simp only [selected, Option.some_or], ?_, behind⟩
    rw [Descent.firstOf, bind_of_some run]
    rfl
  · rw [Descent.firstOf, bind_of_some run]
    rcases second x s c meets with ⟨token, v, after, left, steps, selected, run', behind⟩ | ⟨none', run'⟩
    · have either : ((select token).or (select' token)) = some v := by rw [none token steps.next?, Option.none_or, selected]
      exact .inl ⟨token, v, after, left, steps, either, run', behind⟩
    · exact .inr ⟨fun token next => by simp only [none token next, none' token next, Option.none_or], run'⟩

/-- A probe comes to taking the token that it selects something of. What follows has a lexeme less then. -/
theorem Probes.follows {d : Descent (Option α)} (probes : Probes source allowIn d select) {f : Option α → Descent β}
    {g : Option α → Parser β} (bound : n ≤ m + 1)
    (found : ∀ token v, select token = some v → Follows source m allowIn .close y (f (some v)) (g (some v)))
    (missing : Follows source n allowIn x y (f none) (g none)) :
    Follows source n allowIn x y (d >>= f) (Parser.accept select >>= g) := by
  intro s c meets short
  rcases probes x s c meets with ⟨token, v, after, left, steps, selected, run, meets', same⟩ | ⟨none, run⟩
  · have length := steps.rest_length
    have comes := found token v selected left after meets' (by omega)
    rw [bind_of_some run, Parser.accept_bind_of_steps steps selected]
    exact comes.before same (by omega)
  · rw [bind_of_some run, Parser.accept_bind_of_none none]
    exact missing s c meets short

theorem Probes.follows_self {d : Descent (Option α)} (probes : Probes source allowIn d select) :
    Follows source n allowIn x x d (Parser.accept select) := by
  have follows : Follows source n allowIn x x (d >>= pure) (Parser.accept select >>= pure) :=
    probes.follows (Nat.le_succ _) (fun _ _ _ => follows_pure.loosen) follows_pure
  rwa [bind_pure_self, Parser.bind_pure_self] at follows

/-! Symbols -/

/-- The symbol asked for, if the token spells it. -/
def symbolOf? : Symbol → Token → Option Symbol
  | .punct p => Scanner.punctOf? [p]
  | .word w => Scanner.wordOf? [w]
  | _ => fun _ => none

theorem isSome_symbolOf? (symbol : Symbol) (token : Token) :
    (symbolOf? symbol token).isSome = symbol.isSpelled token := by
  cases symbol with
  | punct p =>
    cases token with
    | punct q => by_cases same : p = q <;> simp [symbolOf?, Scanner.punctOf?, Symbol.isSpelled, same, Ne.symm]
    | _ => rfl
  | word w =>
    cases token with
    | keyword v => by_cases same : w = v <;> simp [symbolOf?, Scanner.wordOf?, Symbol.isSpelled, same, Ne.symm]
    | _ => rfl
  | _ => rfl

theorem probes_find {symbol : Symbol} (noDot : symbol ≠ .punct .dot) :
    Probes source allowIn (find symbol) (symbolOf? symbol) := by
  have nothing : Probes source allowIn (pure none) fun _ => (none : Option Symbol) :=
    fun _ _ _ _ => .inr ⟨fun _ _ => rfl, rfl⟩
  cases symbol with
  | punct p =>
    refine probes_ask (Scanner.punctIn?_finds fun isDot => noDot ?_)
    rw [List.mem_singleton.mp isDot]
  | word w => exact probes_ask (Scanner.keyword?_finds w)
  | _ => exact nothing

theorem take_bind (symbol : Symbol) (f : Bool → Descent β) :
    (take symbol >>= f) = find symbol >>= fun found => f found.isSome := by
  rw [take, bind_assoc]
  rfl

/-- The parser asks only whether the token spells the symbol. -/
theorem parser_take_bind (symbol : Symbol) (g : Bool → Parser β) :
    (Parser.take symbol >>= g) = Parser.accept (symbolOf? symbol) >>= fun found => g found.isSome := by
  rw [Parser.take_eq]
  funext c
  cases next : c.next? with
  | none =>
    rw [Parser.accept_bind_of_none (by simp [next]), Parser.accept_bind_of_none (by simp [next])]
    rfl
  | some token =>
    obtain ⟨after, steps⟩ := Cursor.exists_steps next
    have same := isSome_symbolOf? symbol token
    cases spelled : symbol.isSpelled token with
    | true =>
      obtain ⟨found, selected⟩ := Option.isSome_iff_exists.mp (same.trans spelled)
      rw [Parser.accept_bind_of_steps steps (v := ()) (by simp [spelled]), Parser.accept_bind_of_steps steps selected]
      rfl
    | false =>
      have none := Option.not_isSome_iff_eq_none.mp (Bool.eq_false_iff.mp (same.trans spelled))
      rw [Parser.accept_bind_of_none (by simp [next, spelled]), Parser.accept_bind_of_none (by simp [next, none])]
      rfl

theorem follows_take {symbol : Symbol} (noDot : symbol ≠ .punct .dot) {d d' : Descent β} {p p' : Parser β}
    (bound : n ≤ m + 1) (yes : Follows source m allowIn .close y d p) (no : Follows source n allowIn x y d' p') :
    Follows source n allowIn x y (take symbol >>= fun b => if b = true then d else d')
      (Parser.take symbol >>= fun b => if b = true then p else p') := by
  rw [take_bind, parser_take_bind]
  exact (probes_find noDot).follows bound (fun _ _ _ => by simpa using yes) (by simpa using no)

theorem probe_eq (symbol : Symbol) (f : Bool → Descent β) : (probe symbol >>= f) =
    take symbol >>= fun b => if b = true then f true else miss (.symbol symbol) >>= fun _ => f false := by
  rw [probe, bind_assoc]
  refine congrArg (take symbol >>= ·) (funext fun b => ?_)
  cases b <;> rfl

theorem require_eq (symbol : Symbol) (f : Unit → Descent β) :
    (require symbol >>= f) = take symbol >>= fun b => if b = true then f () else fail := by
  rw [require, bind_assoc]
  refine congrArg (take symbol >>= ·) (funext fun b => ?_)
  cases b <;> rfl

theorem expect_eq (symbol : Symbol) (f : Unit → Descent β) :
    (expect symbol >>= f) = take symbol >>= fun b => if b = true then f () else failMissing (.symbol symbol) := by
  rw [expect, bind_assoc, probe_eq]
  refine congrArg (take symbol >>= ·) (funext fun b => ?_)
  cases b <;> rfl

theorem follows_probe {symbol : Symbol} (noDot : symbol ≠ .punct .dot) {d d' : Descent β} {p p' : Parser β}
    (bound : n ≤ m + 1) (yes : Follows source m allowIn .close y d p) (no : Follows source n allowIn x y d' p') :
    Follows source n allowIn x y (probe symbol >>= fun b => if b = true then d else d')
      (Parser.probe symbol >>= fun b => if b = true then p else p') := by
  rw [probe_eq, Parser.probe_eq]
  exact follows_take noDot bound yes (follows_miss.bind fun _ => no)

/-- What follows a symbol that has to be there has a lexeme less. -/
theorem follows_require {symbol : Symbol} (noDot : symbol ≠ .punct .dot) {d : Descent β} {p : Parser β}
    (rest : Follows source n allowIn .close y d p) : Follows source (n + 1) allowIn x y
      (require symbol >>= fun _ => d) (Parser.require symbol >>= fun _ => p) := by
  rw [require_eq, Parser.require_eq]
  exact follows_take noDot (Nat.le_refl _) rest follows_fail

theorem follows_expect_first {symbol : Symbol} (noDot : symbol ≠ .punct .dot) {d : Descent β} {p : Parser β}
    (rest : Follows source n allowIn .close y d p) : Follows source (n + 1) allowIn x y
      (expect symbol >>= fun _ => d) (Parser.expect symbol >>= fun _ => p) := by
  rw [expect_eq, Parser.expect_eq]
  exact follows_take noDot (Nat.le_refl _) rest follows_failMissing

theorem follows_expect {symbol : Symbol} (noDot : symbol ≠ .punct .dot) {d : Descent β} {p : Parser β}
    (rest : Follows source n allowIn .close y d p) : Follows source n allowIn x y
      (expect symbol >>= fun _ => d) (Parser.expect symbol >>= fun _ => p) :=
  (follows_expect_first noDot rest).mono (Nat.le_succ n)

/-- A symbol that is only looked at is given back. -/
theorem follows_ahead {symbol : Symbol} (noDot : symbol ≠ .punct .dot) :
    Follows source n allowIn x x (ahead symbol) (Parser.ahead symbol) := by
  intro s c meets _
  have next : (Parser.ahead symbol c) = ⟨some (c.next?.any symbol.isSpelled, c), none⟩ := by
    obtain ⟨stop, _ | ⟨lexeme, rest⟩⟩ := c <;> rfl
  have start : (mark : Descent Nat) s = (some s.scanner.offset, s) := rfl
  rw [next, ahead, bind_of_some start, take_bind]
  rcases probes_find noDot x s c meets with ⟨token, v, after, left, steps, selected, run, behind, same⟩ | ⟨none, run⟩
  · have spelled : symbol.isSpelled token = true := by
      rw [← isSome_symbolOf?, selected]
      rfl
    rw [bind_of_some run, steps.next?, Option.any_some, spelled]
    refine ⟨rfl, behind.sameSource, behind.sameIn, ?_, ?_⟩
    · exact same.trans (Failure.merge_none _).symm
    · rintro _ _ ⟨⟩
      exact ⟨meets.reset behind.sameSource behind.sameIn, Nat.le_refl _⟩
  · have other : c.next?.any symbol.isSpelled = false := by
      rw [Option.any_eq_false]
      intro token next
      rw [← isSome_symbolOf?, none token next]
      simp
    rw [bind_of_some run, other]
    exact follows_pure s c meets (Nat.le_refl _)

/-! Names -/

theorem probes_identifier : Probes source allowIn identifier? Parser.nameOf? := probes_ask Scanner.identifier?_finds

theorem probes_identifierName : Probes source allowIn (ask Scanner.identifierName?) Grammar.anyName? :=
  probes_ask Scanner.identifierName?_finds

theorem follows_identifier : Follows source n allowIn x .close identifier Parser.identifier :=
  probes_identifier.follows (Nat.le_succ _) (fun _ _ _ => follows_pure) follows_failMissing

/-! Repetition -/

theorem Follows.many {d : Descent α} {p : Parser α} (follows : Follows source n allowIn x .close d p)
    (shortens : Shortens source (Parser.manyRound p)) :
    Follows source n allowIn x x (Descent.many d) (Parser.many p) := by
  refine Follows.loop (follows.optional.bind fun found => ?_) shortens
  cases found <;> exact follows_pure

theorem Probes.manyFound {d : Descent (Option α)} (probes : Probes source allowIn d select)
    (shortens : Shortens source (Parser.tokenRound select)) :
    Follows source n allowIn x x (Descent.manyFound d) (Parser.manyTokens select) := by
  refine Follows.loop (probes.follows_self.bind fun found => ?_) shortens
  cases found <;> exact follows_pure

theorem Follows.separated {d : Descent α} {p : Parser α} (follows : Follows source n allowIn .loose .close d p)
    (shortens : Shortens source (Parser.commaRound p)) :
    Follows source n allowIn x .close (Descent.separated d) (Parser.separated p) := by
  refine follows.close.bind fun first => Follows.bind (y := .close) (Follows.loop ?_ shortens) fun rest => follows_pure
  exact follows_take (by decide) (Nat.le_succ n) (follows.close.bind fun _ => follows_pure) follows_pure

/-! Operators -/

theorem probes_punctIn {puncts : List Punct} (noDot : .dot ∉ puncts) :
    Probes source allowIn (punctIn puncts) fun token => (Scanner.punctOf? puncts token).bind Symbol.token? := by
  refine (probes_ask (Scanner.punctIn?_finds noDot)).bind fun token symbol found => ?_
  obtain ⟨p, -, rfl⟩ := Scanner.punctOf?_eq_some found
  rfl

theorem probes_keywordIn (words : List Word) :
    Probes source allowIn (keywordIn words) fun token => (Scanner.wordOf? words token).bind Symbol.token? := by
  refine (probes_ask (Scanner.keywordIn?_finds words)).bind fun token symbol found => ?_
  obtain ⟨w, -, rfl⟩ := Scanner.wordOf?_eq_some found
  rfl

/-- What is made of each of the punctuators asked for. -/
theorem probes_ofPunct {puncts : List Punct} (noDot : .dot ∉ puncts) {f : Token → Option α}
    (total : ∀ p ∈ puncts, (f (.punct p)).isSome = true) : Probes source allowIn (return (← punctIn puncts).bind f)
      fun token => ((Scanner.punctOf? puncts token).bind Symbol.token?).bind f := by
  refine (probes_punctIn noDot).bind fun token v found => ?_
  obtain ⟨symbol, selected, isToken⟩ := Option.bind_eq_some_iff.mp found
  obtain ⟨p, asked, rfl⟩ := Scanner.punctOf?_eq_some selected
  cases isToken
  exact total p asked

/-- What is made of each of the words asked for. -/
theorem probes_ofWord {words : List Word} {f : Token → Option α} (total : ∀ w ∈ words, (f (.keyword w)).isSome = true) :
    Probes source allowIn (return (← keywordIn words).bind f)
      fun token => ((Scanner.wordOf? words token).bind Symbol.token?).bind f := by
  refine (probes_keywordIn words).bind fun token v found => ?_
  obtain ⟨symbol, selected, isToken⟩ := Option.bind_eq_some_iff.mp found
  obtain ⟨w, asked, rfl⟩ := Scanner.wordOf?_eq_some selected
  cases isToken
  exact total w asked

theorem Probes.map {d : Descent (Option α)} (probes : Probes source allowIn d select) (f : α → β) :
    Probes source allowIn (return (← d).map f) fun token => (select token).map f := by
  simp only [Option.map_eq_bind]
  exact probes.bind fun _ _ _ => rfl

theorem firstOf_bind (d : Descent α) (f : α → Option β) (d' : Descent (Option β)) :
    firstOf (return f (← d)) d' = d >>= fun v => firstOf (pure (f v)) d' := by
  rw [firstOf, bind_assoc]
  rfl

theorem Probes.congr {d : Descent (Option α)} {select' : Token → Option α} (probes : Probes source allowIn d select)
    (same : ∀ token, select token = select' token) : Probes source allowIn d select' := by
  rwa [← funext same]

/-! Tokens with a meaning -/

theorem probes_atom : Probes source allowIn atom? Grammar.atom? := by
  have this : Probes source allowIn (return (← find (.word .kwThis)).map fun _ span => Tree.thisExpr span) _ :=
    (probes_find (by decide)).map _
  have name : Probes source allowIn (return (← identifier?).map fun name span => Tree.ident span name) _ :=
    probes_identifier.map _
  have word : Probes source allowIn (return (← keywordIn [.kwNull, .kwTrue, .kwFalse]).bind wordLiteral?) _ :=
    probes_ofWord (by decide)
  have number : Probes source allowIn
      (return (← ask Scanner.number?).map fun value span => Tree.numberLit span value) _ :=
    (probes_ask Scanner.number?_finds).map _
  have string : Probes source allowIn
      (return (← ask Scanner.stringLiteral?).map fun value span => Tree.stringLit span value) _ :=
    (probes_ask Scanner.stringLiteral?_finds).map _
  have same : atom? = firstOf (return (← find (.word .kwThis)).map fun _ span => Tree.thisExpr span)
      (firstOf (return (← identifier?).map fun name span => Tree.ident span name) literal?) := by
    rw [firstOf_bind, firstOf_bind, atom?, take_bind]
    refine congrArg (find (.word .kwThis) >>= ·) (funext fun found => ?_)
    cases found with
    | some _ => rfl
    | none =>
      change (identifier? >>= _) = (identifier? >>= _)
      refine congrArg (identifier? >>= ·) (funext fun found => ?_)
      cases found <;> rfl
  rw [same]
  refine (this.firstOf (name.firstOf (word.firstOf (number.firstOf string)))).congr fun token => ?_
  cases token with
  | keyword w => cases w <;> rfl
  | _ => rfl

theorem probes_unaryOp : Probes source allowIn unaryOp? UnaryOp.ofToken? := by
  refine ((probes_ofWord (by decide)).firstOf (probes_ofPunct (by decide) (by decide))).congr fun token => ?_
  cases token with
  | keyword w => cases w <;> rfl
  | punct p => cases p <;> rfl
  | _ => rfl

theorem probes_updateOp : Probes source allowIn updateOp? UpdateOp.ofToken? := by
  refine (probes_ofPunct (by decide) (by decide)).congr fun token => ?_
  cases token with
  | punct p => cases p <;> rfl
  | _ => rfl

theorem probes_assignOp : Probes source allowIn assignOp? AssignOp.ofToken? := by
  refine (probes_ofPunct (by decide) (by decide)).congr fun token => ?_
  cases token with
  | punct p => cases p <;> rfl
  | _ => rfl

theorem probes_inAllowed {d d' : Descent (Option α)} {select : Token → Option α}
    (here : Probes source allowIn (if allowIn then d else d') select) :
    Probes source allowIn (do if ← inAllowed then d else d') select := by
  intro x s c meets
  have asked : inAllowed s = (some allowIn, s) := by
    rw [← meets.sameIn]
    rfl
  rw [bind_of_some asked]
  exact here x s c meets

theorem probes_relational : Probes source allowIn (operatorToken? .relational) fun token =>
    ((Scanner.punctOf? [.le, .ge, .lt, .gt] token).bind Symbol.token?).or
      ((Scanner.wordOf? (if allowIn then [.kwInstanceof, .kwIn] else [.kwInstanceof]) token).bind Symbol.token?) := by
  refine (probes_punctIn (by decide)).firstOf (probes_inAllowed ?_)
  cases allowIn <;> exact probes_keywordIn _

/-- The operators of a tier that is not that of relations are some punctuators. -/
theorem probes_plain {tier : Tier} (plain : tier ≠ .relational) {puncts : List Punct} (noDot : .dot ∉ puncts)
    (all : ∀ p ∈ Punct.all, (tier.opOf? true (.punct p)).isSome = true ↔ p ∈ puncts) :
    Probes source allowIn (return (← punctIn puncts).bind (tier.opOf? true)) (tier.opOf? allowIn) := by
  refine (probes_ofPunct noDot fun p asked => (all p p.mem_all).mpr asked).congr fun token => ?_
  rw [tier.opOf?_anywhere plain]
  cases token with
  | punct p =>
    by_cases asked : p ∈ puncts
    · simp only [Scanner.punctOf?, asked, if_true, Option.bind_some, Symbol.token?]
    · have other := Option.not_isSome_iff_eq_none.mp (mt (all p p.mem_all).mp asked)
      simp only [Scanner.punctOf?, asked, if_false, Option.bind_none, other]
  | keyword w => rw [tier.opOf?_keyword plain]; rfl
  | _ => rfl

/-- Whether `in` is asked for depends on the place. -/
theorem probes_operator (tier : Tier) : Probes source allowIn (operator? tier) (tier.opOf? allowIn) := by
  cases tier with
  | relational =>
    refine (probes_relational.bind fun token v found => ?_).congr fun token => ?_
    · cases token with
      | punct p => cases p <;> cases found <;> rfl
      | keyword w => cases w <;> cases allowIn <;> cases found <;> rfl
      | _ => cases found
    · cases token with
      | punct p => cases p <;> rfl
      | keyword w => cases w <;> cases allowIn <;> rfl
      | _ => rfl
  | _ => exact probes_plain (by decide) (by decide) (by decide +kernel)

/-! Properties -/

/-- A point is found wherever the next token begins with one. -/
theorem State.Meets.find_dot (meets : s.Meets source allowIn x c) : find (.punct .dot) s =
    if Punct.longest? (source.drop c.offset) = some .dot then
      (some (some (.punct .dot)), { s with scanner := ⟨source, c.offset + 1⟩ })
    else (some none, s) := by
  change ask (Scanner.punctIn? [.punct .dot]) s = _
  rw [ask, Scanner.punctIn?, Scanner.rule, meets.skip, Scanner.rest, Scanner.symbolAt]
  cases Punct.longest? (source.drop c.offset) with
  | none => simp
  | some p =>
    by_cases isDot : p = .dot
    · subst isDot
      rfl
    · simp [isDot]

/-- The point at which a property may begin. -/
inductive PointAt (source : Bytes) (c : Cursor) : Prop where
  | missing (other : Punct.longest? (source.drop c.offset) ≠ some .dot) (point : Grammar.point c = ⟨none, none⟩)
  | token {rest : List Lexeme} (found : Punct.longest? (source.drop c.offset) = some .dot)
      (behind : Cursor.Scanned source ⟨c.offset + 1, rest⟩) (shorter : rest.length < c.rest.length)
      (point : Grammar.point c = ⟨some ((), ⟨c.offset + 1, rest⟩), none⟩)
  | number {digit : UInt8} {behind : Bytes} (found : Punct.longest? (source.drop c.offset) = some .dot)
      (atDigit : source.drop (c.offset + 1) = digit :: behind) (isDigit : Bytes.isDigit digit = true)
      (point : Grammar.point c = ⟨none, some ⟨c.offset + 1, [.propertyName]⟩⟩)

theorem point_of_number {value : Number} (next : c.next? = some (.number value)) : Grammar.point c =
    if value.raw.head? = some 0x2E then ⟨none, some ⟨c.offset + 1, [.propertyName]⟩⟩ else ⟨none, none⟩ := by
  obtain ⟨after, newline, span, rest, atRest, -⟩ := Cursor.exists_steps next
  obtain ⟨stop, lexemes⟩ := c
  obtain rfl : lexemes = _ := atRest
  rfl

theorem point_of_other (noNumber : ∀ value, c.next? ≠ some (.number value)) :
    Grammar.point c = Parser.require (.punct .dot) c := by
  obtain ⟨stop, _ | ⟨⟨token, newline, span⟩, rest⟩⟩ := c
  · rfl
  · cases token with
    | number value => exact absurd rfl (noNumber value)
    | _ => rfl

theorem point_of_missing (noNumber : ∀ value, c.next? ≠ some (.number value)) (noDot : c.next? ≠ some (.punct .dot)) :
    Grammar.point c = ⟨none, none⟩ := by
  rw [point_of_other noNumber, ← Parser.bind_pure_self (Parser.require _), Parser.require_eq, Parser.take_eq,
    Parser.accept_bind_of_none]
  · rfl
  · intro token next
    refine if_neg fun spelled => noDot ?_
    rw [next, Symbol.isSpelled_punct.mp spelled]

theorem point_of_dot {after : Cursor} (steps : c.Steps (.punct .dot) after) :
    Grammar.point c = ⟨some ((), after), none⟩ := by
  have noNumber (value : Number) : c.next? ≠ some (.number value) := by
    rw [steps.next?]
    rintro ⟨⟩
  rw [point_of_other noNumber, ← Parser.bind_pure_self (Parser.require _), Parser.require_eq, Parser.take_eq,
    Parser.accept_bind_of_steps steps (v := ()) rfl]
  rfl

theorem pointAt (scanned : c.Scanned source) : PointAt source c := by
  rcases scanned.next with ⟨nothing, ending⟩ | ⟨-, rest, steps, behind⟩
  · exact .missing (by rw [nothing]; decide) (point_of_missing (by simp [ending]) (by simp [ending]))
  · have next := steps.next?
    rcases Token.found (source.drop c.offset) with
      ⟨read, number, -, -, -⟩ | ⟨read, -, -, -, longest⟩ | @⟨spelling, read, -, -, -, longest⟩ |
      @⟨p, read, -, -, -, longest⟩ | ⟨read, -, -, -, longest⟩ <;> rw [read] at steps next behind
    · have point := point_of_number next
      rcases Number.longest?_of_read? number with ⟨longest, noPoint⟩ | ⟨longest, isPoint, digit, tail, text, isDigit⟩
      · exact .missing (by simp [longest]) (by rw [point, if_neg noPoint])
      · have atDigit : source.drop (c.offset + 1) = digit :: tail := by rw [← List.tail_drop, text, List.tail_cons]
        exact .number longest atDigit isDigit (by rw [point, if_pos isPoint])
    · exact .missing (by simp [longest]) (point_of_missing (by simp [next]) (by simp [next]))
    · refine .missing (by simp [longest]) (point_of_missing ?_ ?_) <;>
        rcases Token.ofName_cases spelling with ⟨same, -⟩ | ⟨w, same, -⟩ <;> simp [next, same]
    · by_cases isDot : p = .dot
      · subst isDot
        exact .token longest behind (Nat.lt_of_succ_le (Nat.le_of_eq steps.rest_length)) (point_of_dot steps)
      · refine .missing (by simp [longest, isDot]) (point_of_missing (by simp [next]) (by simp [next, isDot]))
    · exact .missing (by simp [longest]) (point_of_missing (by simp [next]) (by simp [next]))

/-- No name begins with a digit. -/
theorem identifierName?_digit {offset : Nat} {digit : UInt8} {behind : Bytes}
    (atDigit : source.drop offset = digit :: behind) (isDigit : Bytes.isDigit digit = true) :
    Scanner.skip ⟨source, offset⟩ = ⟨source, offset⟩ ∧ Scanner.identifierName? ⟨source, offset⟩ = none := by
  obtain ⟨noTrivia, noWord⟩ := Token.read_digit isDigit behind
  rw [← atDigit] at noTrivia noWord
  have stays := Scanner.skip_eq_self noTrivia
  refine ⟨stays, ?_⟩
  have noName : Name.read? (source.drop offset) = none := by
    rcases Token.found (source.drop offset) with read | read | @⟨spelling, read⟩ | read | read <;> try assumption
    rcases Token.ofName_cases spelling with ⟨same, -⟩ | ⟨w, same, -⟩ <;> simp [read, same, Token.isWord] at noWord
  simp only [Scanner.identifierName?, Scanner.rule, stays, Scanner.rest, noName, Option.map_none]

theorem follows_property {calls : Bool} :
    Follows source n allowIn x .close (property : Descent (Node (.modifier calls))) Grammar.property := by
  refine Follows.spanned fun s c meets short => ?_
  rw [require_eq, take_bind]
  rcases pointAt meets.scanned with ⟨other, point⟩ | ⟨found, behind, shorter, point⟩ | ⟨found, atDigit, isDigit, point⟩
  · have run := meets.find_dot
    rw [if_neg other] at run
    rw [bind_of_some run, Parser.bind_of_fails (by rw [Parser.Fails, point]), point]
    exact follows_fail s c meets short
  · have run := meets.find_dot
    rw [if_pos found] at run
    rw [bind_of_some run, Parser.bind_of_gives (by rw [Parser.Gives, point]), point, Failure.none_merge]
    have meets' : State.Meets source allowIn .close { s with scanner := ⟨source, c.offset + 1⟩ } _ :=
      ⟨behind, rfl, meets.sameIn, .inl rfl⟩
    have name : Follows source n allowIn .close .close _ _ := probes_identifierName.follows_self
    refine (name.bind (fun name => ?_) _ _ meets' (Nat.le_trans (Nat.le_of_lt shorter) short)).before rfl
      (Nat.le_of_lt shorter)
    cases name with
    | none => exact follows_failMissing
    | some name => exact follows_pure
  · have run := meets.find_dot
    rw [if_pos found] at run
    obtain ⟨stays, nothing⟩ := identifierName?_digit atDigit isDigit
    have asked : ask Scanner.identifierName? { s with scanner := ⟨source, c.offset + 1⟩ } =
        (some none, { s with scanner := ⟨source, c.offset + 1⟩ }) := by rw [ask, nothing]
    rw [bind_of_some run, Parser.bind_of_fails (by rw [Parser.Fails, point]), point]
    simp only [Option.isSome_some, if_true]
    rw [bind_of_some asked]
    refine ⟨rfl, rfl, meets.sameIn, ?_, by rintro _ _ ⟨⟩⟩
    change Failure.merge s.failure (some ⟨(Scanner.skip ⟨source, c.offset + 1⟩).offset, [.propertyName]⟩) = _
    rw [stays]

end Descent

end EcmaFold
