import EcmaFold.Proofs.Lexer.LineStarts
import EcmaFold.Proofs.Lexer.TapeRules

/-!
String literals, as the head follows them. Characters that stand for themselves are passed as a whole, where the rule on
texts takes them byte by byte.
-/

namespace EcmaFold

open Tape

theorem lineTerminator?_width_le {bytes : Bytes} {width : Nat} (found : lineTerminator? bytes = some width) :
    width ≤ bytes.length := by
  obtain ⟨text, rest, rfl, rfl, -⟩ := exists_isTerminator found
  rw [List.length_append]
  exact Nat.le_add_right _ _

namespace StringLiteral

/-- Bytes that begin no character stand for themselves. -/
theorem bodyFrom_continues {quote : UInt8} (ascii : quote < 0x80) {taken : Bytes}
    (continues : ∀ b ∈ taken, 0x80 ≤ b ∧ b < 0xC0) (rest : Bytes) : bodyFrom quote 0 (taken ++ rest) =
      (bodyFrom quote 0 rest).map (extend taken taken.length) := by
  induction taken with
  | nil => exact bodyFrom_pending quote [] rest
  | cons b taken ih =>
    obtain ⟨⟨wide, small⟩, continues⟩ := List.forall_mem_cons.mp continues
    have inLine : atLineTerminator (b :: (taken ++ rest)) = false := by
      rw [EcmaFold.atLineTerminator, lineTerminator?_eq_none]
      · rfl
      all_goals
        rintro rfl
        revert wide small
        decide
    have noQuote : b ≠ quote := by
      rintro rfl
      exact absurd wide (UInt8.not_le.mpr ascii)
    have noSlash : b ≠ 0x5C := by
      rintro rfl
      exact absurd wide (by decide)
    rw [List.cons_append, bodyFrom_self inLine noQuote noSlash, ih continues, Option.map_map]
    rfl

end StringLiteral

namespace Act

variable {t : Tape} {b : UInt8} {tail : Bytes}

/-! Escapes -/

theorem escape?_of_letter {decoded : UInt8} (letter : letterEscape? b = some decoded) :
    StringLiteral.escape? (b :: tail) = some ([decoded], 1) := by
  unfold letterEscape? at letter
  grind [StringLiteral.escape?]

theorem escape?_of_other (letter : letterEscape? b = none) : StringLiteral.escape? (b :: tail) =
    if b = 0x30 then if tail.head?.any Bytes.isDigit then none else some ([0], 1)
    else if b = 0x78 then StringLiteral.codeEscape? 2 tail
    else if b = 0x75 then StringLiteral.codeEscape? 4 tail
    else match lineTerminator? (b :: tail) with
      | some width => some ([], width)
      | none => some (Utf8.encode (runeAt (b :: tail)).1, (runeAt (b :: tail)).2) := by
  have other : b ≠ 0x6E ∧ b ≠ 0x74 ∧ b ≠ 0x72 ∧ b ≠ 0x62 ∧ b ≠ 0x66 ∧ b ≠ 0x76 := by
    refine ⟨?_, ?_, ?_, ?_, ?_, ?_⟩ <;> (rintro rfl; cases letter)
  obtain ⟨feed, tab, carriage, back, form, vertical⟩ := other
  simp only [StringLiteral.escape?, if_neg feed, if_neg tab, if_neg carriage, if_neg back, if_neg form, if_neg vertical]
  cases ends : lineTerminator? (b :: tail) with
  | some width => rfl
  | none =>
    cases decoded : Utf8.decode? (b :: tail) with
    | none => rw [runeAt_of_none (List.cons_ne_nil b tail) decoded]
    | some found => rw [runeAt_of_decode decoded]

theorem codeEscape_apply (fits : t.Fits) (left : t.rest = b :: tail) (count : Nat) :
    codeEscape count t = some (t.outcome t.head (StringLiteral.codeEscape? count tail)) := by
  have length : tail.length + 1 = t.source.length - t.head := by
    rw [← List.length_drop, show t.source.drop t.head = b :: tail from left, List.length_cons]
  have behind : t.source.drop (t.head + 1) = tail := by
    rw [← List.drop_drop, show t.source.drop t.head = b :: tail from left]
    rfl
  simp only [codeEscape, bind_apply, offset_apply, size_apply, Option.bind_some, ite_apply, pure_apply,
    StringLiteral.codeEscape?, List.length_take]
  by_cases short : t.source.length ≤ t.head + count
  · rw [if_pos short, if_pos (by omega)]
    rfl
  · have room : count + 1 ≤ t.rest.length := by
      rw [left, List.length_cons]
      omega
    rw [if_neg short, if_neg (by omega), part_apply (Nat.le_add_right _ _) (by omega), behind, Nat.add_sub_cancel_left,
      Option.bind_some]
    cases StringLiteral.hexCode? (tail.take count) with
    | none => rfl
    | some code => simp only [bind_apply, move_apply fits room]; rfl

theorem escape_apply (fits : t.Fits) : escape t = some (t.outcome t.head (StringLiteral.escape? t.rest)) := by
  cases left : t.rest with
  | nil =>
    simp only [escape, bind_apply, size_apply, offset_apply, Option.bind_some, ite_apply, pure_apply, length_le_iff,
      left, if_true]
    rfl
  | cons b tail =>
    have room : 1 ≤ t.rest.length := by simp [left]
    simp only [escape, bind_apply, size_apply, offset_apply, Option.bind_some, ite_apply, pure_apply, length_le_iff,
      left, reduceCtorEq, if_false, peek_apply, List.getD_cons_zero]
    cases letter : letterEscape? b with
    | some decoded =>
      rw [escape?_of_letter letter]
      simp only [bind_apply, move_apply fits room]
      rfl
    | none =>
      have digit : Bytes.isDigit (tail.getD 0 0) = tail.head?.any Bytes.isDigit := by cases tail <;> rfl
      rw [escape?_of_other letter]
      simp only [bind_apply, peek_apply, peekRune_apply, atLineTerminator_apply, Option.bind_some, ite_apply, pure_apply,
        left, List.getD_cons_succ, codeEscape_apply fits left, move_apply fits room, digit]
      split
      · split <;> rfl
      split
      · rfl
      split
      · rfl
      have ends := lineTerminator?_cons b tail
      split
      · rename_i carriage
        rw [if_neg (by rw [carriage]; decide), if_pos carriage] at ends
        split
        · rename_i pair
          rw [if_pos ((getD_zero_eq (by decide)).mp pair)] at ends
          have more : 1 ≤ (t.advance 1).rest.length := by
            have := lineTerminator?_width_le ends
            simpa [left] using this
          rw [ends, move_apply (fits.advance room) more]
          rfl
        · rename_i alone
          rw [if_neg fun pair => alone ((getD_zero_eq (by decide)).mpr pair)] at ends
          rw [ends]
          rfl
      rename_i noReturn
      split
      · rename_i feed
        rw [if_pos feed] at ends
        rw [ends]
        rfl
      rename_i noFeed
      rw [if_neg noFeed, if_neg noReturn] at ends
      split
      · rename_i wide
        obtain ⟨width, found⟩ := Option.isSome_iff_exists.mp wide
        rw [found] at ends ⊢
        split at ends
        · cases ends
          rw [move_apply fits (left ▸ lineTerminator?_width_le found)]
          rfl
        · cases ends
      · rename_i other
        rw [Option.not_isSome_iff_eq_none.mp other, move_apply fits (left ▸ runeAt_width_le (b :: tail))]
        rfl

/-! The body of a literal -/

theorem escape?_width_le {bytes decoded : Bytes} {width : Nat}
    (found : StringLiteral.escape? bytes = some (decoded, width)) : width ≤ bytes.length := by
  cases bytes with
  | nil => cases found
  | cons b tail =>
    have code {count : Nat} (read : StringLiteral.codeEscape? count tail = some (decoded, width)) :
        width ≤ (b :: tail).length := by
      have enough : ¬ (tail.take count).length < count := by
        intro short
        rw [StringLiteral.codeEscape?, if_pos short] at read
        cases read
      rw [StringLiteral.codeEscape?_width read, List.length_cons]
      rw [List.length_take] at enough
      omega
    rcases StringLiteral.escape?_cases found with ⟨count, read⟩ | rfl | ends | ⟨c, char⟩
    · exact code read
    · exact Nat.succ_pos _
    · exact lineTerminator?_width_le ends
    · exact Utf8.decode?_width char

/-- A character that is neither the quote nor a backslash nor a line terminator stands for itself. -/
theorem bodyFrom_rune {quote b : UInt8} {tail : Bytes} (ascii : quote < 0x80)
    (inLine : EcmaFold.atLineTerminator (b :: tail) = false) (noQuote : b ≠ quote) (noSlash : b ≠ 0x5C) :
    StringLiteral.bodyFrom quote 0 (b :: tail) =
      (StringLiteral.bodyFrom quote 0 ((b :: tail).drop (runeAt (b :: tail)).2)).map (StringLiteral.extend
        (if (runeAt (b :: tail)).1 = Utf8.replacement ∧ (runeAt (b :: tail)).2 = 1 then [b]
          else Utf8.encode (runeAt (b :: tail)).1) (runeAt (b :: tail)).2) := by
  have first := StringLiteral.bodyFrom_self inLine noQuote noSlash
  cases decoded : Utf8.decode? (b :: tail) with
  | none => rw [runeAt_of_none (List.cons_ne_nil b tail) decoded, if_pos ⟨rfl, rfl⟩, first]; rfl
  | some rune =>
    obtain ⟨c, width⟩ := rune
    obtain ⟨rest, split, rfl⟩ := Utf8.decode?_eq_some decoded
    have valid : ¬ (c = Utf8.replacement ∧ (Utf8.encode c).length = 1) := by
      rintro ⟨rfl, one⟩
      exact absurd one (by decide)
    rw [runeAt_of_decode decoded, if_neg valid]
    have positive := Utf8.encode_length_pos c
    cases encoded : Utf8.encode c with
    | nil => simp [encoded] at positive
    | cons a more =>
      dsimp only
      rw [← encoded, split, List.drop_left, encoded]
      rw [encoded, List.cons_append] at split
      obtain ⟨rfl, rfl⟩ := List.cons.inj split
      have others := StringLiteral.bodyFrom_continues ascii (Utf8.continues_of_encode encoded) rest
      rw [List.cons_append, first, others, Option.map_map]
      rfl

/-- What a round comes to at a tape: the body goes wrong there, or its quote closes it, or one more piece of it is
passed. -/
inductive FollowsPiece (quote : UInt8) (value : Bytes) (t : Tape) :
    Option (Round Bytes (Option Bytes) × Tape) → Prop where
  | wrong (place : Nat) (wrong : StringLiteral.bodyFrom quote 0 t.rest = none) :
      FollowsPiece quote value t (some (.done none, { t with head := place }))
  | closing (closes : StringLiteral.bodyFrom quote 0 t.rest = some ([], 1)) :
      FollowsPiece quote value t (some (.done (some value), t.advance 1))
  | piece (decoded : Bytes) {width : Nat} (positive : 0 < width) (inside : width ≤ t.rest.length)
      (adds : StringLiteral.bodyFrom quote 0 t.rest =
        (StringLiteral.bodyFrom quote 0 (t.advance width).rest).map (StringLiteral.extend decoded width)) :
      FollowsPiece quote value t (some (.more (value ++ decoded), t.advance width))

theorem literalRound_apply {quote : UInt8} (ascii : quote < 0x80) (noSlash : quote ≠ 0x5C) (value : Bytes)
    (fits : t.Fits) : FollowsPiece quote value t (literalRound quote value t) := by
  cases left : t.rest with
  | nil =>
    have ran : literalRound quote value t = some (.done none, t) := by
      simp only [literalRound, bind_apply, size_apply, offset_apply, Option.bind_some, ite_apply, pure_apply,
        length_le_iff, left, if_true]
    rw [ran]
    exact .wrong t.head (by rw [left, StringLiteral.bodyFrom])
  | cons b tail =>
    have room : 1 ≤ t.rest.length := by simp [left]
    have behind : (t.advance 1).rest = tail := by simp [left]
    simp only [literalRound, bind_apply, size_apply, offset_apply, Option.bind_some, ite_apply, pure_apply,
      length_le_iff, left, reduceCtorEq, if_false, atLineTerminator_apply, peek_apply, List.getD_cons_zero,
      move_apply fits room, escape_apply (fits.advance room), peekRune_apply, behind]
    by_cases ends : EcmaFold.atLineTerminator (b :: tail) = true
    · rw [if_pos ends]
      exact .wrong t.head (by rw [left, StringLiteral.bodyFrom, if_pos ends])
    rw [if_neg ends]
    by_cases closes : b = quote
    · rw [if_pos closes]
      exact .closing (by rw [left, StringLiteral.bodyFrom, if_neg ends, if_pos closes])
    rw [if_neg closes]
    by_cases slash : b = 0x5C
    · rw [if_pos slash]
      cases escaped : StringLiteral.escape? tail with
      | none =>
        exact .wrong (t.head + 1) (by
          rw [left, StringLiteral.bodyFrom, if_neg ends, if_neg closes, if_pos slash, escaped])
      | some found =>
        obtain ⟨decoded, width⟩ := found
        have inside := escape?_width_le escaped
        have adds := @StringLiteral.bodyFrom_escape _ noSlash (tail.take width) decoded (tail.drop width)
          (by rw [List.take_append_drop, List.length_take_of_le inside, escaped])
        rw [List.cons_append, List.take_append_drop, List.length_cons, List.length_take_of_le inside, ← slash] at adds
        simp only [outcome, advance_advance]
        rw [Nat.add_comm 1]
        refine .piece decoded (Nat.succ_pos width) (by simpa [left] using inside) ?_
        rw [rest_advance, left, List.drop_succ_cons]
        exact adds
    · have inside := runeAt_width_le (b :: tail)
      rw [if_neg slash, move_apply fits (left ▸ inside), Option.bind_some]
      refine .piece _ (runeAt_pos (List.cons_ne_nil b tail)) (left ▸ inside) ?_
      rw [rest_advance, left]
      exact bodyFrom_rune ascii (Bool.eq_false_iff.mpr ends) closes slash

/-- The head comes to behind the closing quote of the body, or to where the body goes wrong. -/
theorem literalBody_apply {quote : UInt8} (ascii : quote < 0x80) (noSlash : quote ≠ 0x5C) (value : Bytes)
    (fits : t.Fits) : ∃ place, literalBody quote value t =
      some ((t.outcome place (StringLiteral.bodyFrom quote 0 t.rest)).map (Option.map (value ++ ·)) id) := by
  generalize length : t.rest.length = n
  induction n using Nat.strongRecOn generalizing t value with
  | _ n ih =>
    have followed := literalRound_apply ascii noSlash value fits
    generalize ran : literalRound quote value t = run at followed
    cases followed with
    | wrong place wrong =>
      rw [wrong]
      exact ⟨place, loopAhead_of_done ran⟩
    | closing closes =>
      rw [closes]
      refine ⟨t.head, (loopAhead_of_done ran).trans ?_⟩
      simp [outcome]
    | @piece decoded width positive inside adds =>
      have shorter : (t.advance width).rest.length < n := by
        rw [rest_advance, List.length_drop, ← length]
        omega
      obtain ⟨place, others⟩ := ih _ shorter (value ++ decoded) (fits.advance inside) rfl
      refine ⟨place, (loopAhead_of_more ran (left_advance_lt positive inside)).trans (others.trans ?_)⟩
      rw [adds]
      cases StringLiteral.bodyFrom quote 0 (t.advance width).rest with
      | none => rfl
      | some found => simp [outcome, StringLiteral.extend, Nat.add_comm]

theorem stringLiteral_refines : Refines stringLiteral Scanner.stringLiteral? := by
  refine behindTrivia_refines (fun bytes value width found => ?_) fun t start fits inside => ?_
  · obtain ⟨text, rest, rfl, rfl, -⟩ := StringLiteral.read?_eq_some found
    rw [List.length_append]
    exact Nat.le_add_right _ _
  · have leaves (place : Nat) : moveTo start { t with head := place } = some ((), { t with head := start }) :=
      moveTo_apply inside
    simp only [bind_apply, peek_apply, Option.bind_some, ite_apply, pure_apply, leaves t.head]
    cases left : t.rest with
    | nil => rfl
    | cons quote tail =>
      have room : 1 ≤ t.rest.length := by simp [left]
      rw [List.getD_cons_zero, StringLiteral.read?]
      split
      · rename_i isQuote
        have plain : quote < 0x80 ∧ quote ≠ 0x5C := by rcases isQuote with rfl | rfl <;> decide
        obtain ⟨place, followed⟩ := literalBody_apply plain.1 plain.2 [] (fits.advance room)
        rw [rest_advance, left, List.drop_succ_cons, List.drop_zero] at followed
        rw [move_apply fits room, Option.bind_some, followed, Option.bind_some]
        cases StringLiteral.bodyFrom quote 0 tail with
        | none => exact congrArg (Option.bind · _) (leaves place)
        | some found => simp [outcome, Nat.add_comm, pure_apply]
      · rfl

end Act

end EcmaFold
