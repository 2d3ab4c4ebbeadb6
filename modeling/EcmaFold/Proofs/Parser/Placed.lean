import EcmaFold.Proofs.Parser.Nesting
import EcmaFold.Proofs.Tree.Route

/-!
Every node that is read stands where its route goes: the places in a tree are those that its tokens have in the
source.
-/

namespace EcmaFold

open EcmaFold.Tree
open Route (steps commas)

/-- A tree stands between two cursors: its route leads from one to the other and gives the tree itself. -/
abbrev Tree.Stands {shape : Shape} (tree : Tree shape) (c after : Cursor) (lead : Route Unit := pure ())
    (joint : Route Unit := pure ()) : Prop :=
  (tree.route lead joint).follow c = (tree, after)

theorem Tree.stands_none {kind : Kind} {c after : Cursor} {lead joint : Route Unit} :
    (ofOption none : Tree (.optional kind)).Stands c after lead joint ↔ after = c := by
  simp [Stands, ofOption, route, eq_comm]

theorem Tree.stands_some {kind : Kind} {node : Node kind} {c after : Cursor} :
    (ofOption (some node)).Stands c after ↔ node.Stands c after := by
  simp [Stands, ofOption, route, Prod.ext_iff]

theorem Cursor.Steps.eq_advance {c after : Cursor} {t : Token} (step : c.Steps t after) : after = c.advance := by
  obtain ⟨_, rest⟩ := c
  obtain ⟨newline, span, tail, rfl, rfl⟩ := step
  rfl

namespace Cursor

theorem skipCommas_eq {c : Cursor} (noComma : ∀ t ∈ c.next?, t ≠ .punct .comma) : c.skipCommas = c := by
  obtain ⟨stop, rest⟩ := c
  refine behindCommas_eq ?_
  intro next isNext
  exact noComma next.token (Option.mem_map_of_mem _ isNext)

theorem skipCommas_of_comma {c : Cursor} (comma : c.Steps (.punct .comma) c.advance) :
    c.skipCommas = c.advance.skipCommas := by
  obtain ⟨stop, rest⟩ := c
  obtain ⟨newline, span, tail, rfl, -⟩ := comma
  rfl

end Cursor

namespace Parser

variable {α β : Type}

/-- Whatever the parser gives at a cursor, with the cursor behind it, is in the relation. -/
def Goes (p : Parser α) (c : Cursor) (R : α → Cursor → Prop) : Prop := ∀ v after, p.Gives c v after → R v after

variable {c : Cursor} {R : α → Cursor → Prop} {S : β → Cursor → Prop}

theorem goes_pure {v : α} (holds : R v c) : Goes (pure v) c R := by
  intro w after run
  obtain ⟨rfl, rfl⟩ := pure_gives.mp run
  exact holds

theorem goes_of_fails {p : Parser α} (stuck : p.Fails c) : Goes p c R :=
  fun _ _ run => absurd stuck run.not_fails

theorem goes_fail : Goes (fail : Parser α) c R := goes_of_fails (fail_fails.mpr trivial)

theorem goes_failMissing {e : Expectation} : Goes (failMissing e : Parser α) c R :=
  goes_of_fails (failMissing_fails.mpr trivial)

theorem Goes.of_result {p q : Parser α} (goes : Goes p c R) (same : (q c).result = (p c).result) : Goes q c R :=
  fun v after run => goes v after (same.symm.trans run)

theorem Goes.bind {p : Parser α} {f : α → Parser β} (first : Goes p c R)
    (next : ∀ v between, R v between → Goes (f v) between S) : Goes (p >>= f) c S := by
  intro w after run
  obtain ⟨v, between, runFirst, runNext⟩ := bind_gives.mp run
  exact next v between (first v between runFirst) w after runNext

theorem Goes.map {p : Parser α} {f : α → β} (goes : Goes p c fun v after => S (f v) after) : Goes (f <$> p) c S := by
  intro w after run
  obtain ⟨v, inner, rfl⟩ := map_gives.mp run
  exact goes v after inner

theorem Goes.either {p q : Parser α} (first : Goes p c R) (second : Goes q c R) : Goes (p <|> q) c R := by
  intro v after run
  rcases either_gives.mp run with run | ⟨-, run⟩
  · exact first v after run
  · exact second v after run

theorem Goes.optional {p : Parser α} {R : Option α → Cursor → Prop}
    (present : Goes p c fun v after => R (some v) after) (absent : R none c) : Goes (Parser.optional p) c R := by
  intro o after run
  rcases optional_gives.mp run with ⟨v, rfl, inner⟩ | ⟨rfl, -, rfl⟩
  · exact present v after inner
  · exact absent

theorem goes_offset {f : Nat → Parser β} (next : Goes (f c.offset) c S) : Goes (offset >>= f) c S :=
  Goes.bind (R := fun n between => n = c.offset ∧ between = c) (fun _ _ run => offset_gives.mp run) <| by
    rintro _ _ ⟨rfl, rfl⟩
    exact next

theorem goes_reached {f : Nat → Parser β} (next : Goes (f c.stop) c S) : Goes (reached >>= f) c S :=
  Goes.bind (R := fun n between => n = c.stop ∧ between = c) (fun _ _ run => reached_gives.mp run) <| by
    rintro _ _ ⟨rfl, rfl⟩
    exact next

theorem Goes.spanned {p : Parser (Span → α)}
    (goes : Goes p c fun build after => R (build ⟨c.offset, after.stop⟩) after) : Goes (Parser.spanned p) c R := by
  intro v after run
  obtain ⟨build, inner, rfl⟩ := spanned_gives.mp run
  exact goes build after inner

theorem goes_accept {select : Token → Option α} {f : Option α → Parser β}
    (found : ∀ t v, select t = some v → Goes (f (some v)) c.advance S) (missing : Goes (f none) c S) :
    Goes (accept select >>= f) c S := by
  intro w after run
  obtain ⟨o, between, first, rest⟩ := bind_gives.mp run
  rcases accept_gives.mp first with ⟨t, v, step, chosen, rfl⟩ | ⟨-, rfl, rfl⟩
  · obtain rfl := step.eq_advance
    exact found t v chosen w after rest
  · exact missing w after rest

/-- Which of the two follows is decided by the next token. -/
theorem goes_take_decided {symbol : Symbol} {p q : Parser β}
    (yes : ∀ t, c.Steps t c.advance → symbol.isSpelled t = true → Goes p c.advance S)
    (no : (∀ t ∈ c.next?, symbol.isSpelled t = false) → Goes q c S) :
    Goes (take symbol >>= fun b => if b = true then p else q) c S := by
  intro w after run
  obtain ⟨taken, between, first, rest⟩ := bind_gives.mp run
  cases taken with
  | true =>
    obtain ⟨t, step, spelled⟩ := take_gives_true.mp first
    obtain rfl := step.eq_advance
    exact yes t step spelled w after rest
  | false =>
    obtain ⟨other, rfl⟩ := take_gives_false.mp first
    exact no other w after rest

theorem goes_take {symbol : Symbol} {p q : Parser β} (yes : Goes p c.advance S) (no : Goes q c S) :
    Goes (take symbol >>= fun b => if b = true then p else q) c S :=
  goes_take_decided (fun _ _ _ => yes) fun _ => no

theorem goes_probe {symbol : Symbol} {p q : Parser β} (yes : Goes p c.advance S) (no : Goes q c S) :
    Goes (probe symbol >>= fun b => if b = true then p else q) c S :=
  Goes.of_result (goes_take yes no) (probe_bind_result symbol _ c)

theorem goes_require {symbol : Symbol} {p : Parser β} (next : Goes p c.advance S) :
    Goes (require symbol >>= fun _ => p) c S :=
  Goes.of_result (goes_take next goes_fail) (require_bind_result symbol p c)

theorem goes_expect {symbol : Symbol} {p : Parser β} (next : Goes p c.advance S) :
    Goes (expect symbol >>= fun _ => p) c S :=
  Goes.of_result (goes_take next goes_fail) (expect_bind_result symbol p c)

theorem goes_ahead {symbol : Symbol} {f : Bool → Parser β} (next : ∀ b, Goes (f b) c S) :
    Goes (ahead symbol >>= f) c S :=
  Goes.bind (R := fun _ between => between = c) (fun _ _ run => (ahead_gives.mp run).2) <| by
    rintro b _ rfl
    exact next b

theorem goes_newlineAhead {f : Bool → Parser β} (next : ∀ b, Goes (f b) c S) : Goes (newlineAhead >>= f) c S :=
  Goes.bind (R := fun _ between => between = c) (fun _ _ run => (newlineAhead_gives.mp run).2) <| by
    rintro b _ rfl
    exact next b

theorem goes_identifier : Goes identifier c fun _ after => after = c.advance :=
  goes_accept (fun _ _ _ => goes_pure rfl) goes_failMissing

theorem goes_identifier? : Goes identifier? c fun name after => (steps name.toList.length).follow c = ((), after) := by
  have all : Goes (identifier? >>= pure) c fun name after => (steps name.toList.length).follow c = ((), after) :=
    goes_accept (fun _ _ _ => goes_pure rfl) (goes_pure rfl)
  exact all.of_result (result_eq_of_gives fun v after => by simp)

/-! Lists -/

/-- What the last round establishes and each other round carries over from the rest holds of the whole loop. -/
theorem goes_loop {round : Parser (List α × Bool)} {motive : Cursor → List α → Cursor → Prop}
    (each : ∀ c, Goes round c fun found between =>
      if found.2 then ∀ rest after, motive between rest after → motive c (found.1 ++ rest) after
      else motive c found.1 between) (c : Cursor) : Goes (loop round) c (motive c) := by
  intro all after run
  refine loop_induction ?_ ?_ run
  · intro c found after first
    exact each c (found, false) after first
  · intro c found between rest after first more
    exact each c (found, true) between first rest after more

variable {kind : Kind} {p : Parser (Node kind)}

theorem goes_optional (each : Goes p c fun t after => t.Stands c after) :
    Goes (Parser.optional p) c fun o after => (ofOption o).Stands c after :=
  Goes.optional (fun _ _ run => stands_some.mpr (each _ _ run)) (stands_none.mpr rfl)

theorem goes_many (each : ∀ c, Goes p c fun t after => t.Stands c after) (c : Cursor) :
    Goes (many p) c fun list after => (ofList list).Stands c after := by
  intro list after run
  refine many_induction (motive := fun c list after => (ofList list).Stands c after) ?_ ?_ run
  · intro c _
    rfl
  · intro c t between rest after first more
    simp [Stands, ofList, route, each c t between first, more]

theorem goes_separated (each : ∀ c, Goes p c fun t after => t.Stands c after) (c : Cursor) :
    Goes (separated p) c fun list after => (ofList list).Stands c after (pure ()) (steps 1) := by
  intro list after run
  obtain ⟨first, between, rest, runFirst, runRest, rfl⟩ := separated_gives.mp run
  have further : (ofList rest).Stands between after (steps 1) (steps 1) := by
    refine furtherItems_induction
      (motive := fun c list after => (ofList list).Stands c after (steps 1) (steps 1)) ?_ ?_ runRest
    · intro c
      rfl
    · intro c between t last rest after comma first more
      obtain rfl := comma.eq_advance
      simp [Stands, ofList, route, each _ t last first, more]
  simp [Stands, ofList, route, each c first between runFirst, further]

theorem goes_manyTokens {select : Token → Option α} (c : Cursor) :
    Goes (manyTokens select) c fun found after => (steps found.length).follow c = ((), after) := by
  refine goes_loop (motive := fun c found after => (steps found.length).follow c = ((), after)) (fun c => ?_) c
  exact goes_accept (fun t v _ => goes_pure fun rest after more => more) (goes_pure rfl)

/-- Names with commas between them take a token each, and so do the commas. -/
theorem goes_names (c : Cursor) :
    Goes (separated identifier) c fun names after => (steps (2 * names.length - 1)).follow c = ((), after) := by
  intro names after run
  obtain ⟨first, between, rest, runFirst, runRest, rfl⟩ := separated_gives.mp run
  have further : (steps (2 * rest.length)).follow between = ((), after) := by
    refine furtherItems_induction
      (motive := fun c names after => (steps (2 * names.length)).follow c = ((), after)) ?_ ?_ runRest
    · intro c
      rfl
    · intro c between name last rest after comma first more
      obtain rfl := comma.eq_advance
      obtain rfl := goes_identifier name last first
      exact more
  obtain rfl := goes_identifier first between runFirst
  exact further

end Parser

open EcmaFold.Parser

/-- A node that is told what it covers stands where the cursors are. -/
abbrev Tree.StandsOver {kind : Kind} (c : Cursor) (build : Span → Node kind) (after : Cursor) : Prop :=
  (build ⟨c.offset, after.stop⟩).Stands c after

namespace Grammar

/-- Whatever the grammar reads stands where it was read. -/
structure Places (g : Grammar) : Prop where
  assign : ∀ allowIn c, Goes (g.assign allowIn) c fun t after => t.Stands c after
  statement : ∀ c, Goes g.statement c fun t after => t.Stands c after
  element : ∀ c, Goes g.element c fun t after => t.Stands c after

variable {g : Grammar} {c : Cursor}

/-! Expressions -/

theorem Places.sequence (places : Places g) {allowIn : Bool} (c : Cursor) :
    Goes (g.sequence allowIn) c fun t after => t.Stands c after := by
  refine Goes.spanned ((goes_separated (places.assign allowIn) c).bind fun list after stands => goes_pure ?_)
  simp [Stands, route, stands]

theorem params_goes : Goes params c fun names after =>
    (steps (2 + (2 * names.length - 1))).follow c = ((), after) := by
  refine goes_expect (goes_take (goes_pure rfl) ((goes_names _).bind fun names between stepsTo => ?_))
  refine goes_expect (goes_pure ?_)
  have split : 2 + (2 * names.length - 1) = 1 + ((2 * names.length - 1) + 1) := by omega
  rw [split, Route.follow_steps_add, Route.follow_steps_add]
  simp [stepsTo]

theorem Places.functionBody (places : Places g) (c : Cursor) :
    Goes g.functionBody c fun body after => ∃ last, body.Stands c.advance last ∧ after = last.advance := by
  refine goes_expect (Goes.bind (R := fun list after =>
    ∃ last, (ofList list).Stands c.advance last ∧ after = last.advance) ?_ fun _ _ stands => goes_pure stands)
  refine goes_loop (motive := fun c list after => ∃ last, (ofList list).Stands c last ∧ after = last.advance)
    (fun c => ?_) c.advance
  refine goes_probe (goes_pure ⟨c, rfl, rfl⟩) ((places.element c).bind fun element between stands => goes_pure ?_)
  rintro rest _ ⟨last, more, rfl⟩
  exact ⟨last, by simp [Stands, ofList, route, stands, more], rfl⟩

theorem functionRoute_follow {own : Option Bytes} {names : List Bytes} {body : Tree (.list .element)}
    {named listed last : Cursor} (name : (steps own.toList.length).follow c.advance = ((), named))
    (list : (steps (2 + (2 * names.length - 1))).follow named = ((), listed))
    (stands : body.Stands listed.advance last) :
    (functionRoute own names body.route).follow c = (body, last.advance) := by
  simp [functionRoute, name, list, stands]

theorem Places.functionExpr (places : Places g) (c : Cursor) :
    Goes g.functionExpr c fun t after => t.Stands c after := by
  refine Goes.spanned (goes_require (goes_identifier?.bind fun own named name => ?_))
  refine params_goes.bind fun names listed list => (places.functionBody listed).bind ?_
  rintro body _ ⟨last, stands, rfl⟩
  refine goes_pure ?_
  simp [Stands, route, functionRoute_follow name list stands]

theorem atom_goes (c : Cursor) : Goes atom c fun t after => t.Stands c after := by
  refine Goes.spanned (goes_accept (fun t build found => goes_pure ?_) goes_fail)
  cases t with
  | keyword w => cases w <;> cases found <;> rfl
  | name _ | number _ | string _ => cases found; rfl
  | _ => cases found

/-- The elements of an array, from behind the bracket that opens it. -/
def arrayRoute (elements : Tree (.list .assign)) : Route (Tree (.list .assign)) := do
  commas
  let elements ← elements.route (pure ()) (do steps 1; commas)
  commas
  steps 1
  return elements

theorem arrayRoute_comma {elements : Tree (.list .assign)} (comma : c.Steps (.punct .comma) c.advance) :
    (arrayRoute elements).follow c = (arrayRoute elements).follow c.advance := by
  simp [arrayRoute, Cursor.skipCommas_of_comma comma]

theorem arrayRoute_nil (noComma : ∀ t ∈ c.next?, t ≠ .punct .comma) :
    (arrayRoute nil).follow c = (nil, c.advance) := by
  simp [arrayRoute, route, Cursor.skipCommas_eq noComma]

theorem arrayRoute_cons {element : Node .assign} {elements : Tree (.list .assign)} {between after : Cursor}
    (noComma : ∀ t ∈ c.next?, t ≠ .punct .comma) (stands : element.Stands c between)
    (comma : between.Steps (.punct .comma) between.advance)
    (more : (arrayRoute elements).follow between.advance = (elements, after)) :
    (arrayRoute (cons element elements)).follow c = (cons element elements, after) := by
  cases elements with
  | nil =>
    simp [arrayRoute, route] at more
    simp [arrayRoute, route, Cursor.skipCommas_eq noComma, stands, Cursor.skipCommas_of_comma comma, more]
  | cons head tail =>
    simp [arrayRoute, route] at more
    simp [arrayRoute, route, Cursor.skipCommas_eq noComma, stands, more]

theorem arrayRoute_last {element : Node .assign} {between : Cursor}
    (noComma : ∀ t ∈ c.next?, t ≠ .punct .comma) (stands : element.Stands c between)
    (noComma' : ∀ t ∈ between.next?, t ≠ .punct .comma) :
    (arrayRoute (cons element nil)).follow c = (cons element nil, between.advance) := by
  simp [arrayRoute, route, Cursor.skipCommas_eq noComma, Cursor.skipCommas_eq noComma', stands]

theorem Places.arrayLit (places : Places g) (c : Cursor) : Goes g.arrayLit c fun t after => t.Stands c after := by
  refine Goes.spanned (goes_require (Goes.bind (goes_loop (motive := fun c list after =>
    (arrayRoute (ofList list)).follow c = (ofList list, after)) (fun c => ?_) c.advance) ?_))
  · refine goes_take_decided (fun t step spelled => goes_pure ?_) fun _ => ?_
    · refine arrayRoute_nil fun t' next isComma => ?_
      rw [step.next?] at next
      cases next
      rw [isComma] at spelled
      cases spelled
    refine goes_take_decided (fun t step spelled => goes_pure fun rest after more => ?_) fun other => ?_
    · rw [Symbol.isSpelled_punct.mp spelled] at step
      exact (arrayRoute_comma step).trans more
    have noComma : ∀ t ∈ c.next?, t ≠ .punct .comma := by simpa using other
    refine (places.assign true c).bind fun element between stands => ?_
    refine goes_take_decided (fun t step spelled => goes_pure fun rest after more => ?_) fun other' => ?_
    · rw [Symbol.isSpelled_punct.mp spelled] at step
      exact arrayRoute_cons noComma stands step more
    · exact goes_expect (goes_pure (arrayRoute_last noComma stands (by simpa using other')))
  · intro list after stands
    refine goes_pure ?_
    simp [arrayRoute] at stands
    simp [Stands, route, stands]

theorem Places.paren (places : Places g) (c : Cursor) : Goes g.paren c fun t after => t.Stands c after := by
  refine Goes.spanned (goes_take ((places.sequence _).bind fun expr between stands => ?_) goes_failMissing)
  refine goes_expect (goes_pure ?_)
  simp [Stands, route, stands]

theorem Places.primary (places : Places g) (c : Cursor) : Goes g.primary c fun t after => t.Stands c after :=
  (atom_goes c).either ((places.arrayLit c).either (places.paren c))

theorem Places.arguments (places : Places g) (c : Cursor) : Goes g.arguments c fun t after => t.Stands c after := by
  refine Goes.spanned (goes_require (goes_take (goes_pure rfl) ?_))
  refine (goes_separated (places.assign true) _).bind fun list between stands => goes_expect (goes_pure ?_)
  simp [Stands, route, stands]

theorem Places.index {calls : Bool} (places : Places g) (c : Cursor) :
    Goes (g.index : Parser (Node (.modifier calls))) c fun t after => t.Stands c after := by
  refine Goes.spanned (goes_require ((places.sequence _).bind fun expr between stands => goes_expect (goes_pure ?_)))
  simp [Stands, route, stands]

theorem property_goes {calls : Bool} (c : Cursor) :
    Goes (property : Parser (Node (.modifier calls))) c fun t after => t.Stands c after := by
  have pointGoes : Goes point c fun _ after => after = c.advance := by
    have all : Goes (expect (.punct .dot) >>= fun _ => pure ()) c fun _ after => after = c.advance :=
      goes_expect (goes_pure rfl)
    refine all.of_result ?_
    rw [point_result]
    exact result_eq_of_gives fun v after => by simp
  refine Goes.spanned (pointGoes.bind ?_)
  rintro _ _ rfl
  exact goes_accept (fun _ _ _ => goes_pure rfl) goes_failMissing

theorem Places.modifier (places : Places g) (calls : Bool) (c : Cursor) :
    Goes (g.modifier calls) c fun t after => t.Stands c after := by
  cases calls with
  | false => exact (places.index c).either (property_goes c)
  | true =>
    have call : Goes (Tree.ofArguments <$> g.arguments) c fun t after => t.Stands c after :=
      Goes.map fun args after run => by simp [Stands, route, places.arguments c args after run]
    exact call.either ((places.index c).either (property_goes c))

theorem Places.modifiers (places : Places g) (calls : Bool) (c : Cursor) :
    Goes (many (g.modifier calls)) c fun list after => (ofList list).Stands c after :=
  goes_many (places.modifier calls) c

theorem Places.member (places : Places g) (c : Cursor) : Goes g.member c fun t after => t.Stands c after := by
  refine Goes.spanned (((places.functionExpr c).either (places.primary c)).bind fun target between stands => ?_)
  refine (places.modifiers false between).bind fun list after more => goes_pure ?_
  simp [Stands, route, stands, more]

/-- The offsets are those of the tokens from one cursor to another, the last token first. -/
def Behind (c : Cursor) : List Nat → Cursor → Prop
  | [], between => between = c
  | start :: outer, between => ∃ before, Behind c outer before ∧ start = before.offset ∧ between = before.advance

theorem Behind.follow_steps {starts : List Nat} {between : Cursor} (behind : Behind c starts between) :
    (steps starts.length).follow c = ((), between) := by
  induction starts generalizing between with
  | nil => obtain rfl := behind; rfl
  | cons start outer ih =>
    obtain ⟨before, earlier, -, rfl⟩ := behind
    rw [List.length_cons, Route.follow_steps_add, ih earlier]
    rfl

theorem news_goes (c : Cursor) : Goes news c fun starts after => Behind c starts.reverse after := by
  have further : ∀ d, Goes news d fun starts after =>
      ∀ earlier, Behind c earlier d → Behind c (starts.reverse ++ earlier) after := by
    refine goes_loop fun d => goes_offset (goes_take (goes_pure ?_) (goes_pure fun _ behind => behind))
    intro rest after more earlier behind
    simpa using more (d.offset :: earlier) ⟨d, behind, rfl, rfl⟩
  intro starts after run
  simpa using further c starts after run [] rfl

/-- The target moves to the front with each `new` that is paired. -/
theorem Places.pairNews (places : Places g) (starts : List Nat) {target : Node .member} {first between : Cursor}
    (behind : Behind c starts first) (stands : target.Stands first between) :
    Goes (g.pairNews starts target) between fun result after =>
      ∃ first, Behind c result.1 first ∧ result.2.Stands first after := by
  induction starts generalizing target first between with
  | nil => exact goes_pure ⟨first, behind, stands⟩
  | cons start outer ih =>
    refine (goes_optional (places.arguments between)).bind ?_
    rintro (_ | args) last found
    · obtain rfl := stands_none.mp found
      exact goes_pure ⟨first, behind, stands⟩
    · have standsArgs := stands_some.mp found
      obtain ⟨before, earlier, rfl, rfl⟩ := behind
      refine goes_reached ((places.modifiers false last).bind fun list after more => ?_)
      obtain _ | ⟨head, tail⟩ := list
      · refine ih earlier ?_
        simp [Stands, ofList, route] at more
        simp [Stands, route, stands, standsArgs, more]
      · refine goes_reached (ih earlier ?_)
        simp [Stands, route, stands, standsArgs, more]

theorem Places.lhs (places : Places g) (c : Cursor) : Goes g.lhs c fun t after => t.Stands c after := by
  refine Goes.spanned ((news_goes c).bind fun starts first behind => ?_)
  refine (places.member first).bind fun target between stands => ?_
  refine (places.pairNews starts.reverse behind stands).bind ?_
  rintro ⟨unpaired, target⟩ between' ⟨first', behind', stands'⟩
  cases unpaired with
  | nil =>
    obtain rfl := behind'
    refine (goes_optional (places.arguments between')).bind ?_
    rintro (_ | args) last found
    · obtain rfl := stands_none.mp found
      refine goes_pure ?_
      simp [Stands, route, stands']
    · have standsArgs := stands_some.mp found
      refine (places.modifiers true last).bind fun list after more => goes_pure ?_
      simp [Stands, route, stands', standsArgs, more]
  | cons start outer =>
    have stepsTo : (steps outer.length).follow c.advance = ((), first') := behind'.follow_steps
    refine goes_pure ?_
    simp [Stands, route, stepsTo, stands']

theorem Places.update (places : Places g) (c : Cursor) : Goes g.update c fun t after => t.Stands c after := by
  refine Goes.spanned ((places.lhs c).bind fun operand between stands => goes_newlineAhead fun breaks => ?_)
  have plain : Tree.StandsOver c (fun span => Tree.update span operand none) between := by
    simp [StandsOver, Stands, route, stands]
  cases breaks with
  | true => exact goes_pure plain
  | false =>
    refine goes_accept (fun t op _ => goes_pure ?_) (goes_pure plain)
    simp [Stands, route, stands]

theorem Places.unary (places : Places g) (c : Cursor) : Goes g.unary c fun t after => t.Stands c after := by
  refine Goes.spanned ((goes_manyTokens c).bind fun ops between stepsTo => ?_)
  refine (places.update between).bind fun operand after stands => goes_pure ?_
  simp [Stands, route, stepsTo, stands]

theorem level_goes {tier : Tier} {allowIn : Bool} {operand : Parser (Node tier.operand)}
    (each : ∀ c, Goes operand c fun t after => t.Stands c after) (c : Cursor) :
    Goes (level tier allowIn operand) c fun t after => t.Stands c after := by
  refine Goes.spanned ((each c).bind fun head between stands => ?_)
  refine Goes.bind (R := fun list after => (ofList list).Stands between after) (goes_many (fun c => ?_) between)
    fun list after more => goes_pure ?_
  · refine goes_offset (goes_accept (fun t op _ => ?_) goes_fail)
    refine (each c.advance).bind fun right after stands => goes_pure ?_
    simp [Stands, route, Route.follow, stands]
  · simp [Stands, route, stands, more]

theorem Places.logicalOr (places : Places g) {allowIn : Bool} (c : Cursor) :
    Goes (g.logicalOr allowIn) c fun t after => t.Stands c after :=
  level_goes (level_goes <| level_goes <| level_goes <| level_goes <| level_goes <| level_goes <| level_goes <|
    level_goes <| level_goes places.unary) c

theorem Places.cond (places : Places g) {allowIn : Bool} (c : Cursor) :
    Goes (g.cond allowIn) c fun t after => t.Stands c after := by
  refine Goes.spanned ((places.logicalOr c).bind fun test between stands => goes_take ?_ (goes_pure ?_))
  · refine (places.assign true _).bind fun yes between' standsYes => goes_expect ?_
    refine (places.assign allowIn _).bind fun no after standsNo => goes_pure ?_
    simp [Stands, route, stands, standsYes, standsNo]
  · simp [Stands, route, stands]

/-- A left-hand side that an expression consists of covers what the expression covers. -/
theorem stands_bareLhs? {shape : Shape} {tree : Tree shape} {lhs : Node .lhs} {after : Cursor}
    (stands : tree.Stands c after) (bare : tree.bareLhs? = some lhs) : lhs.Stands c after := by
  induction tree with
  | plain _ value ih =>
    simp only [Stands, route, Route.follow_placed, Route.follow_bind, Route.follow_pure, Prod.mk.injEq,
      plain.injEq] at stands
    exact ih (Prod.ext stands.1.2 stands.2) bare
  | level _ tier head operations ih _ =>
    cases operations with
    | nil =>
      simp only [Stands, route, Route.follow_placed, Route.follow_bind, Route.follow_pure, Prod.mk.injEq,
        level.injEq] at stands
      exact ih (Prod.ext stands.1.2.1 stands.2) bare
    | cons _ _ => cases bare
  | unary _ ops operand ih =>
    cases ops with
    | nil =>
      simp only [Stands, route, Route.follow_placed, Route.follow_bind, Route.follow_pure, Prod.mk.injEq,
        List.length_nil, Route.follow_steps_zero, unary.injEq] at stands
      exact ih (Prod.ext stands.1.2.2 stands.2) bare
    | cons _ _ => cases bare
  | update _ operand op _ =>
    cases op with
    | none =>
      cases bare
      simp only [Stands, route, Route.follow_placed, Route.follow_bind, Route.follow_pure, Prod.mk.injEq,
        Option.toList_none, List.length_nil, Route.follow_steps_zero, update.injEq] at stands
      exact Prod.ext stands.1.2.1 stands.2
    | some _ => cases bare
  | _ => cases bare

theorem Places.assignExpr (places : Places g) {allowIn : Bool} (c : Cursor) :
    Goes (g.assignExpr allowIn) c fun t after => t.Stands c after := by
  refine Goes.spanned ((places.cond c).bind fun value between stands => ?_)
  have plain : Tree.StandsOver c (fun span => Tree.assign span .nil value) between := by
    simp [StandsOver, Stands, route, stands]
  cases bare : value.bareLhs? with
  | none => exact goes_pure plain
  | some lhs =>
    have standsLhs := stands_bareLhs? stands bare
    refine goes_accept (fun t op _ => ?_) (goes_pure plain)
    refine (places.assign allowIn _).bind fun rest after standsRest => goes_pure ?_
    cases rest with
    | assign span targets value =>
      simp [Stands, route] at standsRest
      simp [Stands, addTarget, route, standsLhs, standsRest]

/-! Statements -/

theorem Places.exprStmt (places : Places g) (c : Cursor) : Goes g.exprStmt c (StandsOver c) := by
  refine goes_ahead fun isFunction => ?_
  cases isFunction with
  | true => exact goes_of_fails (bind_fails.mpr (.inl (fail_fails.mpr trivial)))
  | false =>
    refine (places.sequence c).bind fun expr between stands => goes_expect (goes_pure ?_)
    simp [StandsOver, Stands, route, stands]

theorem Places.declaration (places : Places g) {allowIn : Bool} (c : Cursor) :
    Goes (g.declaration allowIn) c fun t after => t.Stands c after := by
  refine Goes.spanned (goes_identifier.bind ?_)
  rintro own _ rfl
  refine goes_take ((places.assign allowIn _).bind fun init after stands => goes_pure ?_) (goes_pure rfl)
  simp [Stands, route, stands]

theorem Places.varStmt (places : Places g) (c : Cursor) : Goes g.varStmt c (StandsOver c) := by
  refine goes_require ((goes_separated places.declaration _).bind fun list between stands => ?_)
  refine goes_expect (goes_pure ?_)
  simp [StandsOver, Stands, route, stands]

theorem emptyStmt_goes (c : Cursor) : Goes emptyStmt c (StandsOver c) := goes_require (goes_pure rfl)

theorem Places.headExpr (places : Places g) (c : Cursor) : Goes g.headExpr c fun expr after =>
    ∃ last, expr.Stands c.advance last ∧ after = last.advance := by
  refine goes_expect ((places.sequence _).bind fun expr last stands => goes_expect (goes_pure ?_))
  exact ⟨last, stands, rfl⟩

theorem Places.ifStmt (places : Places g) (c : Cursor) : Goes g.ifStmt c (StandsOver c) := by
  refine goes_require ((places.headExpr _).bind ?_)
  rintro cond _ ⟨last, stands, rfl⟩
  refine (places.statement _).bind fun yes between standsYes => ?_
  refine Goes.bind (R := fun no after => (ofOption no).Stands between after (steps 1)) ?_
    fun no after standsNo => goes_pure ?_
  · refine Goes.optional (goes_require fun no after run => ?_) (stands_none.mpr rfl)
    simp [Stands, ofOption, route, places.statement _ no after run]
  · simp [StandsOver, Stands, route, stands, standsYes, standsNo]

theorem Places.doWhile (places : Places g) (c : Cursor) : Goes g.doWhile c (StandsOver c) := by
  refine goes_require ((places.statement _).bind fun body between stands => goes_expect ?_)
  refine (places.headExpr _).bind ?_
  rintro cond _ ⟨last, standsCond, rfl⟩
  refine goes_expect (goes_pure ?_)
  simp [StandsOver, Stands, route, stands, standsCond]

theorem Places.whileStmt (places : Places g) (c : Cursor) : Goes g.whileStmt c (StandsOver c) := by
  refine goes_require ((places.headExpr _).bind ?_)
  rintro cond _ ⟨last, stands, rfl⟩
  refine (places.statement _).bind fun body after standsBody => goes_pure ?_
  simp [StandsOver, Stands, route, stands, standsBody]

theorem Places.clause (places : Places g) {allowIn : Bool} {closing : Symbol} (c : Cursor) :
    Goes (g.clause allowIn closing) c fun t after => t.Stands c after := by
  refine goes_ahead fun isClosing => ?_
  cases isClosing with
  | true => exact goes_pure rfl
  | false =>
    refine (places.sequence c).bind fun expr after stands => goes_pure ?_
    simp [Stands, route, stands]

theorem Places.loopRest (places : Places g) (c : Cursor) : Goes g.loopRest c fun (cond, post, body) after =>
    ∃ between last, cond.Stands c between ∧ post.Stands between.advance last ∧ body.Stands last.advance after := by
  refine (places.clause c).bind fun cond between stands => goes_expect ?_
  refine (places.clause _).bind fun post last standsPost => goes_expect ?_
  refine (places.statement _).bind fun body after standsBody => goes_pure ?_
  exact ⟨between, last, stands, standsPost, standsBody⟩

theorem Places.keysRest (places : Places g) (c : Cursor) : Goes g.keysRest c fun (object, body) after =>
    ∃ last, object.Stands c last ∧ body.Stands last.advance after := by
  refine (places.sequence c).bind fun object last stands => goes_expect ?_
  exact (places.statement _).bind fun body after standsBody => goes_pure ⟨last, stands, standsBody⟩

theorem endInit_goes {orIn : Bool} (c : Cursor) : Goes (endInit orIn) c fun _ after => after = c.advance := by
  refine goes_probe (goes_pure rfl) ?_
  intro v after run
  cases orIn <;> simp at run

theorem Places.forVarLoop (places : Places g) {decls : List (Node .declaration)} {orIn : Bool} {between : Cursor}
    (stands : (ofList decls).Stands c.advance.advance.advance between (pure ()) (steps 1)) :
    Goes (endInit orIn >>= fun _ => g.forVarLoop decls) between (StandsOver c) := by
  refine (endInit_goes between).bind ?_
  rintro _ _ rfl
  refine (places.loopRest _).bind ?_
  rintro ⟨cond, post, body⟩ after ⟨middle, last, standsCond, standsPost, standsBody⟩
  refine goes_pure ?_
  simp [StandsOver, Stands, route, stands, standsCond, standsPost, standsBody]

theorem Places.forVarRest (places : Places g) (c : Cursor) :
    Goes g.forVarRest c.advance.advance.advance (StandsOver c) := by
  refine (goes_separated places.declaration _).bind fun decls between stands => ?_
  match decls with
  | [] => exact places.forVarLoop stands
  | [decl] =>
    refine goes_take ((places.keysRest _).bind ?_) (places.forVarLoop stands)
    rintro ⟨object, body⟩ after ⟨last, standsObject, standsBody⟩
    refine goes_pure ?_
    simp [Stands, ofList, route] at stands
    simp [StandsOver, Stands, route, stands, standsObject, standsBody]
  | _ :: _ :: _ => exact places.forVarLoop stands

theorem Places.forLoop (places : Places g) {init : Tree (.optional .sequence)} {orIn : Bool} {between : Cursor}
    (stands : init.Stands c.advance.advance between) :
    Goes (endInit orIn >>= fun _ => g.forLoop init) between (StandsOver c) := by
  refine (endInit_goes between).bind ?_
  rintro _ _ rfl
  refine (places.loopRest _).bind ?_
  rintro ⟨cond, post, body⟩ after ⟨middle, last, standsCond, standsPost, standsBody⟩
  refine goes_pure ?_
  simp [StandsOver, Stands, route, stands, standsCond, standsPost, standsBody]

theorem stands_initTarget? {init : Tree (.optional .sequence)} {lhs : Node .lhs} {after : Cursor}
    (stands : init.Stands c after) (target : initTarget? init = some lhs) : lhs.Stands c after := by
  obtain ⟨_, _, value, rfl, bare⟩ := exists_of_initTarget? target
  simp [Stands, route] at stands
  exact stands_bareLhs? (Prod.ext stands.1.2.2 stands.2) bare

theorem Places.forRest (places : Places g) (c : Cursor) : Goes g.forRest c.advance.advance (StandsOver c) := by
  refine (places.clause _).bind fun init between stands => ?_
  cases target : initTarget? init with
  | none => exact places.forLoop stands
  | some lhs =>
    have standsLhs := stands_initTarget? stands target
    refine goes_take ((places.keysRest _).bind ?_) (places.forLoop stands)
    rintro ⟨object, body⟩ after ⟨last, standsObject, standsBody⟩
    refine goes_pure ?_
    simp [StandsOver, Stands, route, standsLhs, standsObject, standsBody]

theorem Places.forStmt (places : Places g) (c : Cursor) : Goes g.forStmt c (StandsOver c) :=
  goes_require (goes_expect (goes_take (places.forVarRest c) (places.forRest c)))

theorem label_goes (c : Cursor) :
    Goes label c fun label after => (steps label.toList.length).follow c = ((), after) := by
  refine goes_newlineAhead fun breaks => ?_
  cases breaks with
  | true => exact goes_pure rfl
  | false => exact goes_identifier?

theorem continueStmt_goes (c : Cursor) : Goes continueStmt c (StandsOver c) := by
  refine goes_require ((label_goes _).bind fun label between stepsTo => goes_expect (goes_pure ?_))
  simp [StandsOver, Stands, route, stepsTo]

theorem breakStmt_goes (c : Cursor) : Goes breakStmt c (StandsOver c) := by
  refine goes_require ((label_goes _).bind fun label between stepsTo => goes_expect (goes_pure ?_))
  simp [StandsOver, Stands, route, stepsTo]

theorem Places.returnStmt (places : Places g) (c : Cursor) : Goes g.returnStmt c (StandsOver c) := by
  refine goes_require (Goes.bind (R := fun value after => (ofOption value).Stands c.advance after) ?_
    fun value between stands => goes_expect (goes_pure ?_))
  · refine goes_newlineAhead fun breaks => ?_
    cases breaks with
    | true => exact goes_pure rfl
    | false => exact goes_optional (places.sequence _)
  · simp [StandsOver, Stands, route, stands]

theorem Places.withStmt (places : Places g) (c : Cursor) : Goes g.withStmt c (StandsOver c) := by
  refine goes_require ((places.headExpr _).bind ?_)
  rintro object _ ⟨last, stands, rfl⟩
  refine (places.statement _).bind fun body after standsBody => goes_pure ?_
  simp [StandsOver, Stands, route, stands, standsBody]

theorem Places.labeled (places : Places g) (c : Cursor) : Goes g.labeled c (StandsOver c) := by
  refine goes_accept (fun t label _ => goes_expect ?_) goes_fail
  refine (places.statement _).bind fun body after stands => goes_pure ?_
  simp [StandsOver, Stands, route, stands]

theorem Places.caseClauses (places : Places g) (c : Cursor) :
    Goes g.caseClauses c fun list after => (ofList list).Stands c after := by
  refine goes_loop (motive := fun c list after => (ofList list).Stands c after) (fun c => ?_) c
  refine goes_offset (goes_take ?_ (goes_pure rfl))
  refine (places.sequence _).bind fun value between stands => goes_expect ?_
  refine (goes_many places.statement _).bind fun body last standsBody => goes_reached (goes_pure ?_)
  intro rest after more
  simp [Stands, ofList, route, stands, standsBody, more]

theorem Places.defaultClause (places : Places g) (c : Cursor) :
    Goes g.defaultClause c fun t after => t.Stands c after := by
  refine Goes.spanned (goes_require (goes_expect ?_))
  refine (goes_many places.statement _).bind fun body after stands => goes_pure ?_
  simp [Stands, route, stands]

theorem Places.fallback (places : Places g) (c : Cursor) : Goes g.fallback c fun (clause, trailing) after =>
    ∃ between, clause.Stands c between ∧ (ofList trailing).Stands between after := by
  refine (goes_optional (places.defaultClause c)).bind ?_
  rintro (_ | clause) between stands
  · exact goes_pure ⟨between, stands, rfl⟩
  · exact (places.caseClauses between).bind fun trailing after more => goes_pure ⟨between, stands, more⟩

theorem Places.switchStmt (places : Places g) (c : Cursor) : Goes g.switchStmt c (StandsOver c) := by
  refine goes_require ((places.headExpr _).bind ?_)
  rintro tag _ ⟨last, stands, rfl⟩
  refine goes_expect ((places.caseClauses _).bind fun cases between standsCases => ?_)
  refine (places.fallback between).bind ?_
  rintro ⟨clause, trailing⟩ after ⟨middle, standsClause, standsTrailing⟩
  refine goes_expect (goes_pure ?_)
  simp [StandsOver, Stands, route, stands, standsCases, standsClause, standsTrailing]

theorem Places.throwStmt (places : Places g) (c : Cursor) : Goes g.throwStmt c (StandsOver c) := by
  refine goes_require (goes_newlineAhead fun breaks => ?_)
  cases breaks with
  | true => exact goes_of_fails (bind_fails.mpr (.inl (failMissing_fails.mpr trivial)))
  | false =>
    refine (places.sequence _).bind fun value between stands => goes_expect (goes_pure ?_)
    simp [StandsOver, Stands, route, stands]

theorem Places.block (places : Places g) (c : Cursor) : Goes g.block c fun t after => t.Stands c after := by
  refine Goes.spanned (goes_expect ((goes_many places.statement _).bind fun list between stands => ?_))
  refine goes_expect (goes_pure ?_)
  simp [Stands, route, stands]

theorem catchParam_goes (c : Cursor) : Goes catchParam c fun _ after => after = c.advance.advance.advance := by
  refine goes_expect (goes_identifier.bind ?_)
  rintro own _ rfl
  exact goes_expect (goes_pure rfl)

theorem Places.handler (places : Places g) (c : Cursor) :
    Goes g.handler c fun handler after => (ofOption handler).Stands c after := by
  refine goes_offset (goes_probe ((catchParam_goes _).bind ?_) (goes_pure rfl))
  rintro param _ rfl
  refine (places.block _).bind fun body after stands => goes_reached (goes_pure ?_)
  simp [Stands, ofOption, route, stands]

theorem Places.cleanup (places : Places g) (c : Cursor) :
    Goes g.cleanup c fun cleanup after => (ofOption cleanup).Stands c after (steps 1) := by
  refine goes_probe (Goes.map fun body after run => ?_) (goes_pure rfl)
  simp [Stands, ofOption, route, places.block _ body after run]

theorem Places.tryStmt (places : Places g) (c : Cursor) : Goes g.tryStmt c (StandsOver c) := by
  refine goes_require ((places.block _).bind fun body between stands => ?_)
  refine (places.handler between).bind fun handler between' standsHandler => ?_
  refine (places.cleanup between').bind fun cleanup after standsCleanup => ?_
  cases handler.isNone && cleanup.isNone with
  | true => exact goes_of_fails (bind_fails.mpr (.inl (fail_fails.mpr trivial)))
  | false =>
    refine goes_pure ?_
    simp [StandsOver, Stands, route, stands, standsHandler, standsCleanup]

theorem debugger_goes (c : Cursor) : Goes debugger c (StandsOver c) := goes_require (goes_expect (goes_pure rfl))

theorem Places.blockStmt (places : Places g) (c : Cursor) :
    Goes g.blockStmt c fun t after => t.Stands c after := by
  refine goes_ahead fun isBrace => ?_
  cases isBrace with
  | true => exact Goes.map fun block after run => by simp [Stands, route, places.block c block after run]
  | false => exact goes_fail

theorem Places.statementForm (places : Places g) (c : Cursor) :
    Goes g.statementForm c fun t after => t.Stands c after :=
  (places.exprStmt c).spanned.either <| (places.varStmt c).spanned.either <|
    (emptyStmt_goes c).spanned.either <| (places.ifStmt c).spanned.either <|
    (places.doWhile c).spanned.either <| (places.whileStmt c).spanned.either <|
    (places.forStmt c).spanned.either <| (continueStmt_goes c).spanned.either <|
    (breakStmt_goes c).spanned.either <| (places.returnStmt c).spanned.either <|
    (places.withStmt c).spanned.either <| (places.labeled c).spanned.either <|
    (places.switchStmt c).spanned.either <| (places.throwStmt c).spanned.either <|
    (places.tryStmt c).spanned.either <| (debugger_goes c).spanned.either (places.blockStmt c)

theorem Places.funcDecl (places : Places g) (c : Cursor) : Goes g.funcDecl c fun t after => t.Stands c after := by
  refine Goes.spanned (goes_require (goes_identifier.bind ?_))
  rintro own _ rfl
  refine params_goes.bind fun names listed list => (places.functionBody listed).bind ?_
  rintro body _ ⟨last, stands, rfl⟩
  refine goes_pure ?_
  have named : (steps (some own).toList.length).follow c.advance = ((), c.advance.advance) := rfl
  simp [Stands, route, functionRoute_follow named list stands]

theorem Places.deepen (places : Places g) : Places g.deepen := by
  have forms : Places ⟨g.assignExpr, g.statement, g.element⟩ :=
    { places with assign := fun _ c => places.assignExpr c }
  refine ⟨fun _ c => places.assignExpr c, forms.statementForm, fun c => (places.funcDecl c).either ?_⟩
  exact Goes.map fun statement after run => by simp [Stands, route, forms.statementForm c statement after run]

theorem ofDepth_places (depth : Nat) : Places (ofDepth depth) := by
  induction depth with
  | zero => exact ⟨fun _ _ => goes_fail, fun _ => goes_fail, fun _ => goes_fail⟩
  | succ depth ih => exact ih.deepen

end Grammar

end EcmaFold
