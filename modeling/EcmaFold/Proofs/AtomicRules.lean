import EcmaFold.Proofs.Lexer.TapeRequests

/-!
Lexical rules are atomic: a rule that fails has taken back all its moves, and one that succeeds has moved forward. So
whatever is tried at a token, the token is still there if nothing was found, and a loop that always takes something
comes to the end.
-/

namespace EcmaFold

open Tape

variable {find? : Bytes → Option Nat} {t : Tape}

/-- The rule fails and the head is where it was, or it succeeds and the head lies behind the trivia and further, but not
outside of the source. What it gives is what the rule finds there. -/
def Rule.Atomic (find? : Bytes → Option Nat) (rule : Rule) (t : Tape) : Prop :=
  ∃ result t', rule.run find? t = some (result, t') ∧ t'.source = t.source ∧
    result = (rule.read? find? t.scanner).map Prod.fst ∧
    (result = none ∧ t'.head = t.head ∨
      result.isSome ∧ t.scanner.skip.offset < t'.head ∧ t'.head ≤ t.source.length)

/-- What is true of any rule, whatever it looks for: if it fails, the head is where it was. -/
theorem Rule.run_apply (finds : Pattern.FindsMatches Number.pattern find?) (rule : Rule) (sound : t.Sound) :
    ∃ t', rule.run find? t = some ((rule.read? find? t.scanner).map Prod.fst, t') ∧ t'.Sound ∧ t'.source = t.source ∧
      (rule.read? find? t.scanner = none → t'.head = t.head) ∧
      (rule.isProper = true → (rule.read? find? t.scanner).isSome → t.scanner.skip.offset < t'.head) := by
  obtain ⟨t', ran, sound', stands⟩ := rule.run_refines finds t sound
  refine ⟨t', ran, sound', ?_⟩
  cases found : rule.read? find? t.scanner with
  | none =>
    rw [found] at stands
    exact ⟨congrArg Scanner.source stands, fun _ => congrArg Scanner.offset stands, nofun⟩
  | some result =>
    rw [found] at stands
    obtain ⟨width, after, forward⟩ := rule.read?_behind finds found
    have moved : t'.scanner = t.scanner.skip.advance width := stands.trans after
    refine ⟨congrArg Scanner.source moved, nofun, fun proper _ => ?_⟩
    rw [show t'.head = t.scanner.skip.offset + width from congrArg Scanner.offset moved]
    exact Nat.lt_add_of_pos_right (forward proper)

theorem Rule.atomic (finds : Pattern.FindsMatches Number.pattern find?) {rule : Rule} (proper : rule.isProper = true)
    (sound : t.Sound) : rule.Atomic find? t := by
  obtain ⟨t', ran, sound', source, fails, succeeds⟩ := rule.run_apply finds sound
  refine ⟨_, t', ran, source, rfl, ?_⟩
  cases found : rule.read? find? t.scanner with
  | none => exact .inl ⟨rfl, fails found⟩
  | some result =>
    have forward := succeeds proper (by rw [found]; rfl)
    exact .inr ⟨rfl, forward, source ▸ sound'.fits⟩

namespace Act

/-- Tries rules one after the other, up to one that succeeds. -/
def firstOf (find? : Bytes → Option Nat) : List Rule → Act Bool
  | [] => return false
  | rule :: rules => do
    match ← rule.run find? with
    | some _ => return true
    | none => firstOf find? rules

/-- Asks for the end, and tries rules there. -/
def firstBehind (find? : Bytes → Option Nat) (rules : List Rule) : Act (Bool × Bool) := do
  let ended ← atEnd
  return (ended, ← firstOf find? rules)

/-- Takes what one of some rules finds, or else a single character, unless nothing is left. -/
def driveRound (find? : Bytes → Option Nat) (choose : Scanner → List Rule) : Act (Round Unit Unit) := do
  if ← atEnd then return .done ()
  else
    let here ← get
    if ← firstOf find? (choose here.scanner) then return .more ()
    else
      let (_, width) ← peekRune
      move width
      return .more ()

/-- Up to the end takes what one of some rules finds, or else a single character. The rules may depend on the place. -/
def drive (find? : Bytes → Option Nat) (choose : Scanner → List Rule) : Act Unit :=
  loopAhead (fun _ => driveRound find? choose) ()

/-- Rules that fail one after the other leave the head where it is. -/
theorem firstOf_apply (finds : Pattern.FindsMatches Number.pattern find?) (sound : t.Sound) (rules : List Rule) :
    ∃ found t', firstOf find? rules t = some (found, t') ∧ t'.Sound ∧ t'.source = t.source ∧
      (found = false → t'.head = t.head) ∧
      (found = true → (∀ rule ∈ rules, rule.isProper = true) → t.scanner.skip.offset < t'.head) := by
  induction rules generalizing t with
  | nil => exact ⟨false, t, rfl, sound, rfl, fun _ => rfl, nofun⟩
  | cons rule rules ih =>
    obtain ⟨t', ran, sound', source, fails, succeeds⟩ := rule.run_apply finds sound
    rw [firstOf, bind_apply, ran, Option.bind_some]
    cases result : rule.read? find? t.scanner with
    | some value =>
      refine ⟨true, t', rfl, sound', source, nofun, fun _ proper => ?_⟩
      exact succeeds (proper rule List.mem_cons_self) (by rw [result]; rfl)
    | none =>
      obtain ⟨found, t'', ran', sound'', source', fails', succeeds'⟩ := ih sound'
      have same : t'.head = t.head := fails result
      have stays : t'.scanner = t.scanner := by rw [scanner, scanner, source, same]
      refine ⟨found, t'', ran', sound'', source'.trans source, fun none => (fails' none).trans same, ?_⟩
      intro some proper
      rw [← stays]
      exact succeeds' some fun other member => proper other (List.mem_cons_of_mem rule member)

theorem firstBehind_apply (finds : Pattern.FindsMatches Number.pattern find?) (sound : t.Sound) (rules : List Rule) :
    ∃ found t', firstBehind find? rules t = some ((t.scanner.atEnd, found), t') ∧ t'.source = t.source ∧
      (found = false → t'.head = t.scanner.skip.offset) := by
  obtain ⟨found, t', ran, -, source, fails, -⟩ := firstOf_apply finds sound.skipped rules
  refine ⟨found, t', ?_, source, fails⟩
  simp only [firstBehind, bind_apply, atEnd_apply sound, ran, Option.bind_some, pure_apply]

/-- A round comes to the end, or further on. -/
theorem driveRound_apply (finds : Pattern.FindsMatches Number.pattern find?) {choose : Scanner → List Rule}
    (proper : ∀ s, ∀ rule ∈ choose s, rule.isProper = true) (sound : t.Sound) :
    ∃ result t', driveRound find? choose t = some (result, t') ∧ t'.Sound ∧ t'.source = t.source ∧
      (result = .done () ∧ t'.head = t.source.length ∨ result = .more () ∧ t.head < t'.head) := by
  have place : t.head ≤ t.skipped.head := Nat.le_add_right _ _
  rw [driveRound, bind_apply, atEnd_apply sound, Option.bind_some]
  cases ended : t.scanner.atEnd with
  | true =>
    exact ⟨_, t.skipped, rfl, sound.skipped, rfl, .inl ⟨rfl, Nat.le_antisymm sound.skipped.fits (of_decide_eq_true ended)⟩⟩
  | false =>
    have here : (get : Act Tape) t.skipped = some (t.skipped, t.skipped) := rfl
    obtain ⟨found, t', ran, sound', source, fails, succeeds⟩ :=
      firstOf_apply finds sound.skipped (choose t.skipped.scanner)
    simp only [Bool.false_eq_true, if_false, bind_apply, here, ran, Option.bind_some]
    cases found with
    | true =>
      have forward := succeeds rfl (proper _)
      rw [scanner_skipped, Scanner.skip_skip] at forward
      exact ⟨_, t', rfl, sound', source, .inr ⟨rfl, Nat.lt_of_le_of_lt place forward⟩⟩
    | false =>
      have going : ¬ t.source.length ≤ t.skipped.head := of_decide_eq_false ended
      have more : t'.rest ≠ [] := by
        rw [Ne, ← length_le_iff, fails rfl, source]
        exact going
      have room := runeAt_width_le t'.rest
      simp only [Bool.false_eq_true, if_false, bind_apply, peekRune_apply, move_apply sound'.fits room,
        Option.bind_some]
      refine ⟨_, _, rfl, sound'.moveTo (sound'.fits.advance room), source, .inr ⟨rfl, ?_⟩⟩
      exact Nat.lt_of_le_of_lt (place.trans_eq (fails rfl).symm) (Nat.lt_add_of_pos_right (runeAt_pos more))

theorem drive_apply (finds : Pattern.FindsMatches Number.pattern find?) {choose : Scanner → List Rule}
    (proper : ∀ s, ∀ rule ∈ choose s, rule.isProper = true) (sound : t.Sound) :
    ∃ t', drive find? choose t = some ((), t') ∧ t'.source = t.source ∧ t'.head = t.source.length := by
  -- What is left of the source gets shorter each time.
  generalize size : t.left = n
  induction n using Nat.strongRecOn generalizing t with
  | _ n ih =>
    obtain ⟨_, t', ran, sound', source, ⟨rfl, atEnd⟩ | ⟨rfl, forward⟩⟩ := driveRound_apply finds proper sound
    · exact ⟨t', loopAhead_of_done ran, source, atEnd⟩
    · have inside := sound'.fits
      rw [Fits, source] at inside
      have ahead : t'.left < t.left := by
        rw [left, left, source]
        omega
      obtain ⟨t'', others, source', atEnd⟩ := ih t'.left (size ▸ ahead) sound' rfl
      exact ⟨t'', (loopAhead_of_more ran ahead).trans others, source'.trans source, atEnd.trans (source ▸ rfl)⟩

end Act

/-- Wherever a sequence of requests has gone that resets the head to places in the source only, there was no fault, and
the head is in the source. There each rule is atomic; rules that fail once the end was asked for leave the head at the
next token; and a loop that takes what a rule finds, or else a single character, comes to the end. -/
theorem rules_atomic (finds : Pattern.FindsMatches Number.pattern find?) (source : Bytes) (requests : List Request)
    (inside : ∀ request ∈ requests, request.isInside source.length = true) :
    ∃ t, Act.runAll find? requests (ofSource source) = some ((), t) ∧ t.source = source ∧ t.head ≤ source.length ∧
      t.scanner = requests.foldl (Request.next find?) (.ofSource source) ∧
      (∀ rule : Rule, rule.isProper = true → rule.Atomic find? t) ∧
      (∀ rules : List Rule, ∃ found t', Act.firstBehind find? rules t = some ((t.scanner.atEnd, found), t') ∧
        t'.source = source ∧ (found = false → t'.head = t.scanner.skip.offset)) ∧
      ∀ choose : Scanner → List Rule, (∀ s, ∀ rule ∈ choose s, rule.isProper = true) →
        ∃ t', Act.drive find? choose t = some ((), t') ∧ t'.source = source ∧ t'.head = source.length := by
  obtain ⟨t, ran, sound, rfl, went⟩ := Act.runAll_apply finds (ofSource_sound source) inside
  refine ⟨t, ran, rfl, sound.fits, went, fun rule proper => rule.atomic finds proper sound, ?_, ?_⟩
  · exact Act.firstBehind_apply finds sound
  · exact fun choose proper => Act.drive_apply finds proper sound

/-- The source ends within an escaped line terminator of a string, so there is no string to be found. -/
theorem rules_atomic_unterminated : ∃ t,
    Act.runAll Number.find? [.follow .stringLiteral, .reset 3, .newlineAhead, .reset 0, .atEnd]
      (ofSource (utf8 "/*\r\n*/'a\\" ++ [0xE2, 0x80])) = some ((), t) ∧ t.head = 6 ∧
    (∃ t', Act.stringLiteral t = some (none, t') ∧ t'.head = 6) ∧
    ∃ t', Act.drive Number.find? (fun _ => [.stringLiteral, .identifierName]) t = some ((), t') ∧ t'.head = 11 := by
  obtain ⟨t, ran, -, -, went, atomic, -, drives⟩ := rules_atomic Number.find?_findsMatches
    (utf8 "/*\r\n*/'a\\" ++ [0xE2, 0x80]) [.follow .stringLiteral, .reset 3, .newlineAhead, .reset 0, .atEnd]
    (by decide)
  have place : t.head = 6 := (congrArg Scanner.offset went).trans (by decide +kernel)
  obtain ⟨_, stuck, failed, -, rfl, fails | succeeds⟩ := atomic .stringLiteral rfl
  · obtain ⟨behind, drove, -, atEnd⟩ := drives (fun _ => [.stringLiteral, .identifierName]) fun _ => by decide
    exact ⟨t, ran, place, ⟨stuck, fails.1 ▸ failed, fails.2.trans place⟩, behind, drove, atEnd⟩
  · rw [went] at succeeds
    exact absurd succeeds.1 (by decide +kernel)

end EcmaFold
