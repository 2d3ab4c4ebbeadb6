import EcmaFold.Proofs.Lexer.Gap
import EcmaFold.Proofs.Lexer.Tape

/-!
What the steps of the head come to, as far as single bytes, characters and trivia are concerned. Each action has a
result, and the result is what the lexical rules say of the bytes at the head.
-/

namespace EcmaFold

/-- The byte that is looked at where none may be left is the first one, unless it is zero. -/
theorem getD_zero_eq {bytes : Bytes} {b : UInt8} (visible : b ≠ 0) : bytes.getD 0 0 = b ↔ bytes.head? = some b := by
  cases bytes <;> simp [visible.symm]

theorem Utf8.decode?_width {bytes : Bytes} {c : Char} {width : Nat} (found : decode? bytes = some (c, width)) :
    width ≤ bytes.length := by
  obtain ⟨rest, rfl, rfl⟩ := decode?_eq_some found
  rw [List.length_append]
  exact Nat.le_add_right _ _

namespace Tape

variable {t : Tape} {width : Nat}

/-- The head lies in the source or at its end. -/
def Fits (t : Tape) : Prop := t.head ≤ t.source.length

theorem length_le_iff (t : Tape) : t.source.length ≤ t.head ↔ t.rest = [] := List.drop_eq_nil_iff.symm

@[simp] theorem rest_advance (t : Tape) (width : Nat) : (t.advance width).rest = t.rest.drop width := by
  simp [rest, advance]

@[simp] theorem advance_zero (t : Tape) : t.advance 0 = t := rfl

@[simp] theorem advance_advance (t : Tape) (width more : Nat) :
    (t.advance width).advance more = t.advance (width + more) := by
  simp [advance, Nat.add_assoc]

theorem Fits.advance (fits : t.Fits) (inside : width ≤ t.rest.length) : (t.advance width).Fits := by
  rw [rest, List.length_drop] at inside
  exact Nat.add_le_of_le_sub' fits inside

theorem left_advance_lt (positive : 0 < width) (inside : width ≤ t.rest.length) : (t.advance width).left < t.left := by
  rw [rest, List.length_drop] at inside
  simp only [left, advance]
  omega

end Tape

namespace Act

open Tape

variable {α β : Type} {t : Tape} {width : Nat}

/-! Reading and moving -/

theorem bind_apply (a : Act α) (f : α → Act β) (t : Tape) : (a >>= f) t = (a t).bind fun p => f p.1 p.2 := rfl

theorem pure_apply (value : α) (t : Tape) : (pure value : Act α) t = some (value, t) := rfl

theorem ite_apply (p : Prop) [Decidable p] (a b : Act α) (t : Tape) :
    (if p then a else b) t = if p then a t else b t := by
  split <;> rfl

section

variable {σ : Type} {left : σ → Tape → Nat} {round : σ → Act (Round σ α)} {handed next : σ} {value : α} {behind : Tape}

theorem loop_of_done (ran : round handed t = some (.done value, behind)) :
    loop left round handed t = some (value, behind) := by
  rw [loop, ran]

theorem loop_of_more (ran : round handed t = some (.more next, behind)) (less : left next behind < left handed t) :
    loop left round handed t = loop left round next behind := by
  rw [loop, ran]
  exact if_pos less

theorem loopAhead_of_done (ran : round handed t = some (.done value, behind)) :
    loopAhead round handed t = some (value, behind) := loop_of_done ran

theorem loopAhead_of_more (ran : round handed t = some (.more next, behind)) (ahead : behind.left < t.left) :
    loopAhead round handed t = loopAhead round next behind := loop_of_more ran ahead

end

theorem size_apply (t : Tape) : size t = some (t.source.length, t) := rfl

theorem offset_apply (t : Tape) : offset t = some (t.head, t) := rfl

theorem moveTo_apply {place : Nat} (inside : place ≤ t.source.length) :
    moveTo place t = some ((), { t with head := place }) := if_pos inside

theorem move_apply (fits : t.Fits) (inside : width ≤ t.rest.length) : move width t = some ((), t.advance width) :=
  moveTo_apply (fits.advance inside)

theorem part_apply {start stop : Nat} (ordered : start ≤ stop) (inside : stop ≤ t.source.length) :
    part start stop t = some ((t.source.drop start).take (stop - start), t) := if_pos ⟨ordered, inside⟩

/-- The part of a width that begins at the head. -/
theorem part_head_apply (fits : t.Fits) (inside : width ≤ t.rest.length) :
    part t.head (t.head + width) t = some (t.rest.take width, t) := by
  have stop : t.head + width ≤ t.source.length := fits.advance inside
  rw [part_apply (Nat.le_add_right _ _) stop, Nat.add_sub_cancel_left, rest]

/-- The part that has been passed since the head was at its start. -/
theorem part_advance_apply (fits : t.Fits) (inside : width ≤ t.rest.length) :
    part t.head (t.advance width).head (t.advance width) = some (t.rest.take width, t.advance width) := by
  refine (part_apply (Nat.le_add_right _ _) (fits.advance inside)).trans ?_
  simp [advance, rest]

theorem peek_apply (k : Nat) (t : Tape) : peek k t = some (t.rest.getD k 0, t) := by
  simp only [peek, bind_apply, offset_apply, size_apply, Option.bind_some, ite_apply, pure_apply, byteAt, rest,
    List.getD_eq_getElem?_getD, List.getElem?_drop]
  split
  · rename_i inside
    simp [List.getElem?_eq_getElem inside]
  · rename_i outside
    simp [List.getElem?_eq_none (Nat.le_of_not_lt outside)]

theorem runeAt_of_decode {bytes : Bytes} {c : Char} (found : Utf8.decode? bytes = some (c, width)) :
    runeAt bytes = (c, width) := by
  cases bytes with
  | nil => cases found
  | cons b rest => rw [runeAt, found, Option.getD_some]; exact List.cons_ne_nil b rest

theorem runeAt_of_none {bytes : Bytes} (nonempty : bytes ≠ []) (bad : Utf8.decode? bytes = none) :
    runeAt bytes = (Utf8.replacement, 1) := by
  cases bytes with
  | nil => exact absurd rfl nonempty
  | cons b rest => rw [runeAt, bad, Option.getD_none]; exact List.cons_ne_nil b rest

theorem runeAt_pos {bytes : Bytes} (nonempty : bytes ≠ []) : 0 < (runeAt bytes).2 := by
  cases decoded : Utf8.decode? bytes with
  | none =>
    rw [runeAt_of_none nonempty decoded]
    exact Nat.one_pos
  | some rune =>
    rw [runeAt_of_decode decoded]
    exact Utf8.decode?_width_pos decoded

theorem runeAt_width_le (bytes : Bytes) : (runeAt bytes).2 ≤ bytes.length := by
  cases bytes with
  | nil => exact Nat.le_refl 0
  | cons b rest =>
    cases decoded : Utf8.decode? (b :: rest) with
    | none => simp [runeAt_of_none (List.cons_ne_nil b rest) decoded]
    | some rune =>
      rw [runeAt_of_decode decoded]
      exact Utf8.decode?_width decoded

theorem peekRune_apply (t : Tape) : peekRune t = some (runeAt t.rest, t) := by
  simp only [peekRune, bind_apply, peek_apply, offset_apply, size_apply, Option.bind_some, ite_apply, pure_apply,
    length_le_iff]
  cases left : t.rest with
  | nil => rfl
  | cons b tail =>
    have going : t.head < t.source.length := by
      rw [← Nat.not_le, length_le_iff, left]
      exact List.cons_ne_nil b tail
    rw [List.getD_cons_zero]
    split
    · rename_i ascii
      simp [runeAt, Utf8.decode?_ascii tail ascii]
    · rw [part_apply (Nat.le_of_lt going) (Nat.le_refl _), ← List.length_drop, List.take_length]
      rw [rest] at left
      simp [left]

theorem atLineTerminator_apply (t : Tape) : atLineTerminator t = some (EcmaFold.atLineTerminator t.rest, t) := by
  simp only [atLineTerminator, bind_apply, peek_apply, Option.bind_some, ite_apply, pure_apply]
  cases left : t.rest with
  | nil => rfl
  | cons b tail =>
    have terminates := atLineTerminator_cons b tail
    have wide : (tail.getD 0 0 = 0x80 ∧ (tail.getD 1 0 = 0xA8 ∨ tail.getD 1 0 = 0xA9)) ↔
        tail.take 2 = [0x80, 0xA8] ∨ tail.take 2 = [0x80, 0xA9] := by
      obtain _ | ⟨second, _ | ⟨third, tail⟩⟩ := tail <;> simp [and_or_left]
    simp only [List.getD_cons_zero, List.getD_cons_succ]
    cases ends : EcmaFold.atLineTerminator (b :: tail) <;> grind

/-! Trivia -/

theorem passLine_apply (fits : t.Fits) : passLine t = some ((), t.advance (Trivia.lineWidth t.rest)) := by
  generalize left : t.rest = bytes
  induction bytes generalizing t with
  | nil =>
    refine loopAhead_of_done ?_
    simp [bind_apply, atLineTerminator_apply, size_apply, offset_apply, ite_apply, pure_apply, length_le_iff, left,
      Trivia.lineWidth]
  | cons b tail ih =>
    have room : 1 ≤ t.rest.length := by simp [left]
    rw [Trivia.lineWidth]
    cases ends : EcmaFold.atLineTerminator (b :: tail) with
    | true =>
      refine loopAhead_of_done ?_
      simp [bind_apply, atLineTerminator_apply, size_apply, offset_apply, ite_apply, pure_apply, left, ends]
    | false =>
      rw [if_neg Bool.false_ne_true, Nat.add_comm, ← advance_advance]
      refine (loopAhead_of_more ?_ (left_advance_lt Nat.one_pos room)).trans (ih (fits.advance room) (by simp [left]))
      simp only [bind_apply, atLineTerminator_apply, size_apply, offset_apply, ite_apply, pure_apply, length_le_iff, left,
        ends, Option.bind_some, reduceCtorEq, decide_false, Bool.or_false, Bool.false_eq_true, if_false,
        move_apply fits room]

theorem passBlock_apply (newline : Bool) (fits : t.Fits) : passBlock newline t =
    match Trivia.blockRest? t.rest with
    | some gap => some (some (newline || gap.newline), t.advance gap.width)
    | none => some (none, t.advance t.rest.length) := by
  generalize left : t.rest = bytes
  induction bytes generalizing t newline with
  | nil =>
    refine loopAhead_of_done ?_
    simp [bind_apply, size_apply, offset_apply, ite_apply, pure_apply, length_le_iff, left]
  | cons b tail ih =>
    have room : 1 ≤ t.rest.length := by simp [left]
    by_cases closing : b = 0x2A ∧ tail.head? = some 0x2F
    · obtain ⟨tail, rfl⟩ := List.head?_eq_some_iff.mp closing.2
      have room : 2 ≤ t.rest.length := by simp [left]
      rw [closing.1, Trivia.blockRest?_pair]
      refine loopAhead_of_done ?_
      simp only [bind_apply, peek_apply, size_apply, offset_apply, ite_apply, pure_apply, length_le_iff, left,
        Option.bind_some, reduceCtorEq, if_false, List.getD_cons_zero, List.getD_cons_succ, move_apply fits room,
        Bool.or_false]
      exact if_pos ⟨closing.1, trivial⟩
    · have again : passBlock newline t =
          passBlock (newline || EcmaFold.atLineTerminator (b :: tail)) (t.advance 1) := by
        refine loopAhead_of_more ?_ (left_advance_lt Nat.one_pos room)
        simp only [bind_apply, peek_apply, atLineTerminator_apply, size_apply, offset_apply, ite_apply, pure_apply,
          length_le_iff, left, Option.bind_some, reduceCtorEq, if_false, List.getD_cons_zero, List.getD_cons_succ,
          move_apply fits room]
        exact if_neg fun both => closing ⟨both.1, (getD_zero_eq (by decide)).mp both.2⟩
      rw [again, ih _ (fits.advance room) (by simp [left]), Trivia.blockRest?_cons closing]
      cases Trivia.blockRest? tail <;> simp [Bool.or_assoc, Nat.add_comm]

theorem passPiece_apply (fits : t.Fits) : passPiece t = some (
    match Trivia.piece? t.rest with
    | some gap => (some gap.newline, t.advance gap.width)
    | none => (none, t)) := by
  cases left : t.rest with
  | nil => simp [passPiece, bind_apply, peek_apply, ite_apply, pure_apply, left, Trivia.piece?]
  | cons b tail =>
    have room : 1 ≤ t.rest.length := by simp [left]
    simp only [passPiece, bind_apply, peek_apply, peekRune_apply, ite_apply, pure_apply, left, Option.bind_some,
      List.getD_cons_zero, List.getD_cons_succ, Trivia.piece?, move_apply fits room, offset_apply]
    split
    · rfl
    split
    · rfl
    split
    · cases tail with
      | nil => rfl
      | cons next comment =>
        have room : 2 ≤ t.rest.length := by simp [left]
        have behind : (t.advance 2).rest = comment := by simp [left]
        simp only [List.getD_cons_zero, move_apply fits room, Option.bind_some]
        by_cases isLine : next = 0x2F
        · subst isLine
          rw [if_pos rfl, passLine_apply (fits.advance room), behind]
          simp [Nat.add_comm]
        rw [if_neg isLine]
        by_cases isBlock : next = 0x2A
        · subst isBlock
          rw [if_pos rfl, passBlock_apply false (fits.advance room), behind]
          simp only
          cases Trivia.blockRest? comment with
          | some gap => simp [pure_apply, Nat.add_comm]
          | none => exact congrArg (Option.bind · _) (moveTo_apply fits)
        · rw [if_neg isBlock]
          split <;> simp_all
    split
    · rfl
    · cases found : Utf8.decode? (b :: tail) with
      | none =>
        rw [runeAt_of_none (List.cons_ne_nil b tail) found, if_neg (by decide), if_neg (by decide), Trivia.wideBlank?,
          found]
      | some rune =>
        obtain ⟨c, width⟩ := rune
        have inside : width ≤ t.rest.length := left ▸ Utf8.decode?_width found
        rw [runeAt_of_decode found, Trivia.wideBlank?, found]
        simp only [move_apply fits inside, Option.bind_some]
        split
        · rfl
        split <;> rfl

theorem passTrivia_apply (newline : Bool) (fits : t.Fits) : passTrivia newline t =
    some (newline || (Trivia.gap t.rest).newline, t.advance (Trivia.gap t.rest).width) := by
  generalize left : t.rest = bytes
  induction bytes using Trivia.gap_induction generalizing t newline with
  | stops bytes noTrivia =>
    rw [Trivia.gap_of_none noTrivia, Bool.or_false]
    refine loopAhead_of_done ?_
    rw [bind_apply, passPiece_apply fits, left, noTrivia]
    rfl
  | piece text rest ends isPiece ih =>
    have room : text.length ≤ t.rest.length := by simp [left]
    rw [Trivia.gap_of_piece isPiece, ← Bool.or_assoc, ← advance_advance]
    refine (loopAhead_of_more ?_ (left_advance_lt (List.length_pos_iff.mpr isPiece.ne_nil) room)).trans
      (ih (newline || ends) (fits.advance room) (by simp [left]))
    rw [bind_apply, passPiece_apply fits, left, isPiece.piece?]
    rfl

end Act

/-! Passing over trivia -/

namespace Tape

/-- What is kept about the trivia passed over last is right. -/
structure Sound (t : Tape) : Prop where
  fits : t.Fits
  stop : ∀ passed ∈ t.passed, passed.stop = passed.start + (Trivia.gap (t.source.drop passed.start)).width
  newline : ∀ passed ∈ t.passed, passed.newline = (Trivia.gap (t.source.drop passed.start)).newline

/-- The tape with the head behind the trivia. -/
def skipped (t : Tape) : Tape :=
  { t.advance (Trivia.gap t.rest).width with
    passed := some ⟨t.head, t.head + (Trivia.gap t.rest).width, (Trivia.gap t.rest).newline⟩ }

theorem ofSource_sound (source : Bytes) : (ofSource source).Sound := ⟨Nat.zero_le _, nofun, nofun⟩

variable {t : Tape}

theorem Sound.skipped (sound : t.Sound) : t.skipped.Sound := by
  refine ⟨sound.fits.advance (Trivia.gap_width_le _), ?_, ?_⟩
  · rintro _ ⟨⟩
    rfl
  · rintro _ ⟨⟩
    rfl

theorem Sound.moveTo (sound : t.Sound) {place : Nat} (inside : place ≤ t.source.length) :
    Sound { t with head := place } :=
  ⟨inside, sound.stop, sound.newline⟩

theorem scanner_skipped (t : Tape) : t.skipped.scanner = t.scanner.skip := rfl

end Tape

namespace Act

open Tape

variable {t : Tape}

theorem skip_apply (sound : t.Sound) : skip t = some ((Trivia.gap t.rest).newline, t.skipped) := by
  have start : (get : Act Tape) t = some (t, t) := rfl
  rw [skip, bind_apply, start, Option.bind_some]
  cases known : t.passed.filter (·.start = t.head) with
  | none =>
    simp only [bind_apply, passTrivia_apply false sound.fits, Bool.false_or, Option.bind_some]
    rfl
  | some passed =>
    obtain ⟨kept, here⟩ := Option.filter_eq_some_iff.mp known
    have here : passed.start = t.head := by simpa using here
    have stop : passed.stop = t.head + (Trivia.gap t.rest).width := by rw [sound.stop passed kept, here, rest]
    have newline : passed.newline = (Trivia.gap t.rest).newline := by rw [sound.newline passed kept, here, rest]
    have inside : passed.stop ≤ t.source.length := stop ▸ sound.skipped.fits
    have same : { t with head := passed.stop } = t.skipped := by
      obtain ⟨start, _, _⟩ := passed
      obtain rfl : start = t.head := here
      rw [skipped, advance, ← stop, ← newline, ← Option.mem_def.mp kept]
    rw [← newline, ← same]
    exact congrArg (Option.bind · _) (moveTo_apply inside)

end Act

end EcmaFold
