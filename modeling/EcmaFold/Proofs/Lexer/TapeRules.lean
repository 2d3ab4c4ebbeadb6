import EcmaFold.Proofs.Lexer.Grammar
import EcmaFold.Proofs.Lexer.TapeTrivia

/-!
The lexical rules, as the head follows them, find what the rules on texts say. Where such a rule fails, the head is back
where it was.
-/

namespace EcmaFold

open Tape

theorem Name.partWidth_le (bytes : Bytes) : partWidth 0 bytes ≤ bytes.length := by
  obtain ⟨chars, rest, parts, stops, rfl⟩ := exists_chars bytes
  rw [partWidth_chars parts stops, List.length_append]
  exact Nat.le_add_right _ _

/-- What a rule finds at the head of a tape, and the tape behind it. Where it finds nothing the head goes to `start`. -/
def Tape.outcome {α : Type} (t : Tape) (start : Nat) : Option (α × Nat) → Option α × Tape
  | some (value, width) => (some value, t.advance width)
  | none => (none, { t with head := start })

namespace Act

variable {α : Type}

/-- Wherever the head is, the action has a result. It is what the rule finds there, and the head ends up behind it, or
where it was if the rule fails. -/
def Refines (a : Act (Option α)) (rule : Scanner → Option (α × Scanner)) : Prop :=
  ∀ t : Tape, t.Sound → ∃ t', a t = some ((rule t.scanner).map Prod.fst, t') ∧ t'.Sound ∧
    t'.scanner = ((rule t.scanner).map Prod.snd).getD t.scanner

/-- To follow a rule is to find behind the trivia what the rule finds at the head of the bytes. -/
theorem behindTrivia_refines {read : Bytes → Option (α × Nat)} {look : Nat → Act (Option α)}
    (fits : ∀ bytes value width, read bytes = some (value, width) → width ≤ bytes.length)
    (looks : ∀ (t : Tape) (start : Nat), t.Fits → start ≤ t.source.length →
      look start t = some (t.outcome start (read t.rest))) :
    Refines (behindTrivia look) (Scanner.rule read) := by
  intro t sound
  have skipped := sound.skipped
  have followed : Scanner.rule read t.scanner =
      (read t.skipped.rest).map fun found => (found.1, t.skipped.scanner.advance found.2) := rfl
  have steps : behindTrivia look t = some (t.skipped.outcome t.head (read t.skipped.rest)) := by
    rw [behindTrivia, bind_apply, offset_apply, Option.bind_some, bind_apply, skip_apply sound, Option.bind_some]
    exact looks t.skipped t.head skipped.fits sound.fits
  rw [followed, steps]
  cases found : read t.skipped.rest with
  | none => exact ⟨_, rfl, skipped.moveTo sound.fits, rfl⟩
  | some result =>
    obtain ⟨value, width⟩ := result
    exact ⟨_, rfl, skipped.moveTo (skipped.fits.advance (fits _ _ _ found)), rfl⟩

/-! Punctuators -/

theorem symbolAt_take (bytes : Bytes) : Scanner.symbolAt (bytes.take 4) = Scanner.symbolAt bytes := by
  have short : ∀ p ∈ Punct.all, p.spelling.length ≤ 4 := by decide
  have same : Punct.longest? (bytes.take 4) = Punct.longest? bytes := by
    unfold Punct.longest?
    congr 1
    funext p
    rw [Bool.eq_iff_iff, List.isPrefixOf_iff_prefix, List.isPrefixOf_iff_prefix, List.prefix_take_iff]
    exact and_iff_left (short p p.mem_all)
  rw [Scanner.symbolAt, same, Scanner.symbolAt]

theorem symbolAt_width_le (bytes : Bytes) : (Scanner.symbolAt bytes).2 ≤ bytes.length := by
  unfold Scanner.symbolAt
  split
  · rename_i p longest
    obtain ⟨rest, rfl, -⟩ := Punct.longest?_eq_some longest
    rw [List.length_append]
    exact Nat.le_add_right _ _
  · exact Nat.zero_le _

theorem symbolHere_apply {t : Tape} (fits : t.Fits) : symbolHere t = some (Scanner.symbolAt t.rest, t) := by
  have four : (t.source.drop t.head).take (min (t.head + 4) t.source.length - t.head) = t.rest.take 4 := by
    rw [rest, List.take_eq_take_iff, List.length_drop]
    omega
  have parted := @part_apply t t.head (min (t.head + 4) t.source.length)
    (Nat.le_min.mpr ⟨Nat.le_add_right _ _, fits⟩) (Nat.min_le_right _ _)
  simp only [symbolHere, bind_apply, offset_apply, size_apply, Option.bind_some, parted, four, pure_apply,
    symbolAt_take]

theorem punctIn_refines (symbols : List Symbol) : Refines (punctIn symbols) (Scanner.punctIn? symbols) := by
  refine behindTrivia_refines (fun bytes value width found => ?_) fun t start fits inside => ?_
  · dsimp only at found
    split at found
    · cases found
      exact symbolAt_width_le bytes
    · cases found
  · simp only [bind_apply, symbolHere_apply fits, Option.bind_some, ite_apply, pure_apply]
    split
    · rw [move_apply fits (symbolAt_width_le t.rest)]
      rfl
    · rw [moveTo_apply inside]
      rfl

/-! Words -/

/-- The replacement character belongs to no name, so it makes no difference that bad bytes and the end are read as it
is. -/
theorem isPart_runeAt (bytes : Bytes) : Name.isPart (runeAt bytes).1 = Name.goesOn bytes := by
  have bad : Name.isPart Utf8.replacement = false := by decide +kernel
  rw [Name.goesOn]
  cases found : Utf8.decode? bytes with
  | some rune => rw [runeAt_of_decode found]
  | none =>
    cases bytes with
    | nil => exact bad
    | cons b rest =>
      rw [runeAt_of_none (List.cons_ne_nil b rest) found]
      exact bad

theorem keyword_refines (symbol : Symbol) : Refines (keyword symbol) (Scanner.keyword? symbol) := by
  refine behindTrivia_refines (fun bytes value width found => ?_) fun t start fits inside => ?_
  · dsimp only at found
    split at found
    · rename_i stands
      cases found
      exact (List.isPrefixOf_iff_prefix.mp stands.1).length_le
    · cases found
  · have leaves : moveTo start t = some ((), { t with head := start }) := moveTo_apply inside
    have room : t.head + symbol.spelling.length ≤ t.source.length ↔ symbol.spelling.length ≤ t.rest.length := by
      rw [rest, List.length_drop, Nat.le_sub_iff_add_le' fits]
    simp only [bind_apply, offset_apply, size_apply, Option.bind_some, ite_apply, pure_apply, leaves, room]
    by_cases width : symbol.spelling.length ≤ t.rest.length
    · rw [if_pos width, part_head_apply fits width, Option.bind_some]
      by_cases stands : t.rest.take symbol.spelling.length = symbol.spelling
      · have isPrefix : symbol.spelling.isPrefixOf t.rest = true :=
          List.isPrefixOf_iff_prefix.mpr (List.prefix_iff_eq_take.mpr stands.symm)
        simp only [stands, if_true, isPrefix, true_and, move_apply fits width, Option.bind_some, peekRune_apply,
          rest_advance, isPart_runeAt]
        cases Name.goesOn (t.rest.drop symbol.spelling.length)
        · rfl
        · exact congrArg (Option.bind · _) (moveTo_apply inside)
      · have noPrefix : ¬ symbol.spelling.isPrefixOf t.rest = true := fun isPrefix =>
          stands (List.prefix_iff_eq_take.mp (List.isPrefixOf_iff_prefix.mp isPrefix)).symm
        simp only [if_neg stands, leaves]
        rw [if_neg fun both => noPrefix both.1]
        rfl
    · have noPrefix : ¬ symbol.spelling.isPrefixOf t.rest = true := fun isPrefix =>
        width (List.isPrefixOf_iff_prefix.mp isPrefix).length_le
      rw [if_neg width, if_neg fun both => noPrefix both.1]
      rfl

theorem keywordIn_refines : ∀ symbols : List Symbol, Refines (keywordIn symbols) (Scanner.keywordIn? symbols)
  | [] => fun t sound => ⟨t, rfl, sound, rfl⟩
  | symbol :: symbols => by
    intro t sound
    obtain ⟨t', run, sound', stands⟩ := keyword_refines symbol t sound
    rw [keywordIn, bind_apply, run, Option.bind_some, Scanner.keywordIn?, List.findSome?_cons]
    cases found : Scanner.keyword? symbol t.scanner with
    | some result =>
      rw [found] at stands
      exact ⟨t', rfl, sound', stands⟩
    | none =>
      rw [found] at stands
      obtain ⟨t'', run', sound'', stands'⟩ := keywordIn_refines symbols t' sound'
      rw [show t'.scanner = t.scanner from stands] at run' stands'
      exact ⟨t'', run', sound'', stands'⟩

/-! Names -/

theorem passName_apply {t : Tape} (fits : t.Fits) : passName t = some ((), t.advance (Name.partWidth 0 t.rest)) := by
  generalize left : t.rest.length = n
  induction n using Nat.strongRecOn generalizing t with
  | _ n ih =>
    cases goes : Name.goesOn t.rest with
    | false =>
      rw [Name.partWidth_of_not_goesOn goes]
      refine loopAhead_of_done ?_
      simp only [bind_apply, peekRune_apply, Option.bind_some, ite_apply, pure_apply, isPart_runeAt, goes]
      exact if_pos (.inr Bool.false_ne_true)
    | true =>
      obtain ⟨c, width, decoded, part⟩ : ∃ c width, Utf8.decode? t.rest = some (c, width) ∧ Name.isPart c = true := by
        unfold Name.goesOn at goes
        split at goes
        · exact ⟨_, _, by assumption, goes⟩
        · cases goes
      obtain ⟨tail, split, same⟩ := Utf8.decode?_eq_some decoded
      have positive := Utf8.decode?_width_pos decoded
      have room := Utf8.decode?_width decoded
      have behind : (t.advance width).rest = tail := by rw [rest_advance, split, same, List.drop_left]
      have shorter : tail.length < n := by
        rw [← left, split, List.length_append]
        omega
      have others := ih tail.length shorter (fits.advance room) (by rw [behind])
      rw [split, Name.partWidth_encode part, ← same, ← advance_advance, ← behind]
      refine (loopAhead_of_more ?_ (left_advance_lt positive room)).trans others
      simp only [bind_apply, peekRune_apply, runeAt_of_decode decoded, Option.bind_some, ite_apply, pure_apply, part,
        move_apply fits room]
      exact if_neg (by simp; omega)

/-- A name is read where a character stands that a name may start with, and nowhere else. -/
theorem read?_eq_runeAt (bytes : Bytes) : Name.read? bytes =
    if (runeAt bytes).2 = 0 ∨ ¬ Name.isStart (runeAt bytes).1 then none
    else some (bytes.take ((runeAt bytes).2 + Name.partWidth 0 (bytes.drop (runeAt bytes).2))) := by
  have bad : Name.isStart Utf8.replacement = false := by decide +kernel
  cases decoded : Utf8.decode? bytes with
  | none =>
    have stops : (runeAt bytes).2 = 0 ∨ ¬ Name.isStart (runeAt bytes).1 := by
      cases bytes with
      | nil => exact .inl rfl
      | cons b rest =>
        rw [runeAt_of_none (List.cons_ne_nil b rest) decoded]
        exact .inr (by simp [bad])
    rw [if_pos stops, Name.read?, Name.width, decoded]
    rfl
  | some rune =>
    obtain ⟨c, width⟩ := rune
    have positive := Utf8.decode?_width_pos decoded
    rw [runeAt_of_decode decoded, Name.read?, Name.width, decoded]
    by_cases start : Name.isStart c = true
    · obtain ⟨tail, rfl, rfl⟩ := Utf8.decode?_eq_some decoded
      simp only [start, if_true, Name.partWidth_encode (Name.isPart_of_isStart start), List.drop_left]
      rw [if_neg (by omega), if_neg (by simp only [not_true, or_false]; omega)]
    · simp [start]

theorem identifierName_refines : Refines identifierName Scanner.identifierName? := by
  refine behindTrivia_refines (fun bytes value width found => ?_) fun t start fits inside => ?_
  · obtain ⟨name, read, same⟩ := Option.map_eq_some_iff.mp found
    cases same
    obtain ⟨-, rest, rfl, -⟩ := Name.read?_eq_some read
    rw [List.length_append]
    exact Nat.le_add_right _ _
  · have leaves : moveTo start t = some ((), { t with head := start }) := moveTo_apply inside
    simp only [bind_apply, offset_apply, peekRune_apply, Option.bind_some, ite_apply, pure_apply, leaves,
      read?_eq_runeAt]
    have first := runeAt_width_le t.rest
    split
    · rfl
    · have fits' := fits.advance first
      have more := Name.partWidth_le (t.rest.drop (runeAt t.rest).2)
      rw [List.length_drop] at more
      rw [move_apply fits first, Option.bind_some, passName_apply fits', Option.bind_some, rest_advance, advance_advance]
      have width : (runeAt t.rest).2 + Name.partWidth 0 (t.rest.drop (runeAt t.rest).2) ≤ t.rest.length := by omega
      simp only [part_advance_apply fits width, Option.bind_some, Option.map_some, outcome, List.length_take_of_le width]

theorem identifier_refines : Refines identifier Scanner.identifier? := by
  intro t sound
  obtain ⟨t', run, sound', stands⟩ := identifierName_refines t sound
  rw [identifier, bind_apply, offset_apply, Option.bind_some, bind_apply, run, Option.bind_some, Scanner.identifier?_eq]
  cases found : Scanner.identifierName? t.scanner with
  | none =>
    rw [found] at stands
    exact ⟨t', rfl, sound', stands⟩
  | some result =>
    rw [found] at stands
    cases reserved : Word.ofSpelling? result.1 with
    | none =>
      refine ⟨t', ?_, sound', ?_⟩
      · simp [Option.filter_some, reserved, pure_apply]
      · simpa [Option.filter_some, reserved] using stands
    | some word =>
      obtain ⟨width, -, after⟩ := Scanner.rule_eq_some.mp found
      have source : t'.source = t.source := congrArg Scanner.source (stands.trans after)
      have inside : t.head ≤ t'.source.length := source ▸ sound.fits
      have leaves : moveTo t.head t' = some ((), { t' with head := t.head }) := moveTo_apply inside
      refine ⟨{ t' with head := t.head }, ?_, sound'.moveTo inside, ?_⟩
      · simp [Option.filter_some, reserved, bind_apply, pure_apply, leaves]
      · simp [Option.filter_some, reserved, scanner, source]

/-! Numbers -/

theorem belongs_eq (before b : UInt8) : Number.belongs before b =
    (Number.belongs 0 b || ((b = 0x2B || b = 0x2D) && (before = 0x65 || before = 0x45))) := by
  simp [Number.belongs]

/-- The byte is looked at together with the one before it, if that one has been looked at too. -/
theorem windowRound_apply {t : Tape} {start stop : Nat} (going : stop < t.source.length) :
    windowRound start stop t = some (
      if Number.belongs (if start < stop then t.source.getD (stop - 1) 0 else 0) t.source[stop] then .more (stop + 1)
      else .done stop, t) := by
  have read : byteAt stop t = some (t.source[stop], t) := by simp [byteAt, List.getElem?_eq_getElem going]
  generalize t.source[stop] = b at read
  simp only [windowRound, bind_apply, size_apply, Option.bind_some, ite_apply, pure_apply,
    if_neg (Nat.not_le_of_lt going), read, belongs_eq (ite _ _ _)]
  by_cases first : Number.belongs 0 b = true
  · simp [first]
  by_cases sign : (b = 0x2B ∨ b = 0x2D) ∧ start < stop
  · have inner : stop - 1 < t.source.length := Nat.lt_of_le_of_lt (Nat.sub_le _ _) going
    have before : byteAt (stop - 1) t = some (t.source.getD (stop - 1) 0, t) := by
      simp [byteAt, List.getElem?_eq_getElem inner]
    rw [if_neg first, if_pos sign, before, Option.bind_some, if_pos sign.2]
    by_cases marker : t.source.getD (stop - 1) 0 = 0x65 ∨ t.source.getD (stop - 1) 0 = 0x45
    · rw [if_pos marker, if_pos (by simpa [first, sign.1] using marker)]
    · rw [if_neg marker, if_neg (by simpa [first, sign.1] using marker)]
  · rw [if_neg first, if_neg sign]
    have stops : ¬ (Number.belongs 0 b || ((b = 0x2B || b = 0x2D) &&
        ((if start < stop then t.source.getD (stop - 1) 0 else 0) = 0x65 ||
          (if start < stop then t.source.getD (stop - 1) 0 else 0) = 0x45))) = true := by
      by_cases isSign : b = 0x2B ∨ b = 0x2D
      · simp [first, if_neg fun less => sign ⟨isSign, less⟩]
      · simp [first, isSign]
    rw [if_neg stops]

theorem windowStop_apply {t : Tape} {start stop : Nat} (ordered : start ≤ stop) (inside : stop ≤ t.source.length) :
    windowStop start stop t = some (stop + (Number.windowFrom
      (if start < stop then t.source.getD (stop - 1) 0 else 0) (t.source.drop stop)).length, t) := by
  generalize left : t.source.drop stop = bytes
  induction bytes generalizing stop with
  | nil =>
    have ended : t.source.length ≤ stop := List.drop_eq_nil_iff.mp left
    refine loop_of_done ?_
    simp [windowRound, bind_apply, size_apply, ite_apply, pure_apply, ended, Number.windowFrom]
  | cons b tail ih =>
    have going : stop < t.source.length := by
      rw [← Nat.not_le, ← List.drop_eq_nil_iff, left]
      exact List.cons_ne_nil b tail
    have ran := @windowRound_apply t start stop going
    rw [List.drop_eq_getElem_cons going] at left
    obtain ⟨here, next⟩ := List.cons.inj left
    have others := ih (Nat.le_succ_of_le ordered) going next
    rw [if_pos (Nat.lt_succ_of_le ordered), Nat.succ_sub_one, List.getD_eq_getElem?_getD,
      List.getElem?_eq_getElem going, Option.getD_some, here] at others
    rw [here] at ran
    generalize (if start < stop then t.source.getD (stop - 1) 0 else 0) = before at ran ⊢
    rw [Number.windowFrom]
    by_cases belongs : Number.belongs before b = true
    · rw [if_pos belongs] at ran ⊢
      rw [List.length_cons, ← Nat.succ_add_eq_add_succ]
      exact (loop_of_more ran (Nat.sub_succ_lt_self _ _ going)).trans others
    · rw [if_neg belongs] at ran ⊢
      exact loop_of_done ran

theorem window_apply {t : Tape} (fits : t.Fits) : window t = some (Number.window t.rest, t) := by
  have isPrefix := Number.windowFrom_prefix 0 t.rest
  have stopped := windowStop_apply (Nat.le_refl t.head) fits
  rw [if_neg (Nat.lt_irrefl _)] at stopped
  rw [window, bind_apply, offset_apply, Option.bind_some, bind_apply, stopped, Option.bind_some]
  refine (part_head_apply fits isPrefix.length_le).trans ?_
  rw [← List.prefix_iff_eq_take.mp isPrefix, Number.window]

theorem number_refines {find? : Bytes → Option Nat} (finds : Pattern.FindsMatches Number.pattern find?) :
    Refines (number find?) (Scanner.numberBy? find?) := by
  refine behindTrivia_refines (fun bytes value width found => ?_) fun t start fits inside => ?_
  · obtain ⟨number, read, same⟩ := Option.map_eq_some_iff.mp found
    cases same
    obtain ⟨⟨width, -, raw⟩, -⟩ := Number.readBy?_eq_some read
    have isPrefix := Number.windowFrom_prefix 0 bytes
    rw [raw]
    exact ((List.take_prefix _ _).trans isPrefix).length_le
  · have leaves : moveTo start t = some ((), { t with head := start }) := moveTo_apply inside
    simp only [bind_apply, window_apply fits, Option.bind_some, Number.readBy?]
    cases found : find? (Number.window t.rest) with
    | none => simp only [bind_apply, leaves]; rfl
    | some width =>
      obtain ⟨short, -⟩ := finds _ _ found
      have isPrefix := Number.windowFrom_prefix 0 t.rest
      have room : width ≤ t.rest.length := Nat.le_trans short isPrefix.length_le
      have raw : beginning (Number.window t.rest) width t = some ((Number.window t.rest).take width, t) := if_pos short
      simp only [bind_apply, raw, Option.bind_some, List.length_take_of_le short, move_apply fits room,
        peekRune_apply, ite_apply, rest_advance, isPart_runeAt, pure_apply]
      cases goes : Name.goesOn (t.rest.drop width) with
      | true =>
        have stops : moveTo start (t.advance width) = some ((), { t with head := start }) := moveTo_apply inside
        have positive : 0 < (runeAt (t.rest.drop width)).2 := runeAt_pos fun none => by
          rw [none] at goes
          cases goes
        rw [if_pos ⟨positive, rfl⟩, stops]
        rfl
      | false =>
        simp [outcome, List.length_take_of_le short]

end Act

end EcmaFold
