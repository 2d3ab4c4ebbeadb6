import EcmaFold.Proofs.Lexer.Adjacent
import EcmaFold.Proofs.Parser.Follow

/-!
What pieces of normalised source say when they are scanned. Pieces lay slots out, in front of other bytes, when
the scan of their text covers the slots and goes on with the other bytes. Each piece has a rule, so that a layout
is proved by walking along it.
-/

namespace EcmaFold

namespace Piece

/-- The text of some pieces. -/
def text (pieces : List Piece) : Bytes := pieces.flatMap bytes

theorem text_append (pieces pieces' : List Piece) : text (pieces ++ pieces') = text pieces ++ text pieces' :=
  List.flatMap_append

theorem text_token (t : Token) (pieces : List Piece) : text (token t :: pieces) = t.spelling ++ text pieces := rfl

end Piece

open Piece (text)

/-- Whether the bytes begin with one that can stand behind every token: a blank, a bracket, or a mark that no
punctuator goes on with. -/
def calm : Bytes → Bool
  | [] => true
  | b :: _ => [0x20, 0x0A, 0x2C, 0x3B, 0x29, 0x5D, 0x3A, 0x28, 0x5B].contains b

/-- Whether the bytes may stand behind what can be called or accessed, or be increased, beside the calm ones. -/
def calmOr (others : List UInt8) : Bytes → Bool
  | [] => true
  | b :: rest => calm (b :: rest) || others.contains b

theorem goesOn_of_calmOr {bytes : Bytes} (settled : calmOr [0x2B, 0x2D, 0x2E] bytes = true) :
    Name.goesOn bytes = false := by
  have table : ∀ b : UInt8, calmOr [0x2B, 0x2D, 0x2E] [b] = true →
      b < 0x80 ∧ Name.isPart (Char.ofNat b.toNat) = false := by
    refine Bytes.forall_byte ?_
    decide +kernel
  cases bytes with
  | nil => rfl
  | cons b rest =>
    obtain ⟨ascii, noPart⟩ := table b settled
    rw [Name.goesOn_ascii rest ascii, noPart]

theorem calmOr_mono {few many : List UInt8} (subset : ∀ b ∈ few, b ∈ many) {bytes : Bytes}
    (settled : calmOr few bytes = true) : calmOr many bytes = true := by
  cases bytes with
  | nil => rfl
  | cons b rest =>
    rw [calmOr, Bool.or_eq_true, List.contains_iff_mem] at settled ⊢
    exact settled.imp_right (subset b)

theorem calmOr_point {bytes : Bytes} (settled : calmOr [0x2B, 0x2D] bytes = true) :
    calmOr [0x2B, 0x2D, 0x2E] bytes = true :=
  calmOr_mono (fun _ member => List.mem_append_left [0x2E] member) settled

theorem calmOr_of_calm {others : List UInt8} {bytes : Bytes} (settled : calm bytes = true) :
    calmOr others bytes = true := by
  cases bytes with
  | nil => rfl
  | cons b rest => rw [calmOr, settled, Bool.true_or]

theorem Punct.not_mem_joins {p : Punct} {bytes : Bytes} (settled : calm bytes = true) :
    ∀ b ∈ bytes.head?, b ∉ p.joins := by
  have table : ∀ p ∈ Punct.all, (p.joins.all fun b => !calm [b]) = true := by decide +kernel
  cases bytes with
  | nil => exact nofun
  | cons b rest =>
    rintro _ ⟨⟩ member
    have noCalm : (!calm (b :: rest)) = true := List.all_eq_true.mp (table p p.mem_all) b member
    rw [settled] at noCalm
    cases noCalm

/-- The punctuators that can stand in front of anything. -/
def Punct.isSolo : Punct → Bool
  | lbrace | rbrace | lparen | rparen | lbracket | rbracket | semicolon | comma | question | colon | bitNot => true
  | _ => false

theorem Punct.joins_eq_nil {p : Punct} (solo : p.isSolo = true) : p.joins = [] := by
  have table : ∀ p ∈ Punct.all, p.isSolo = true → p.joins = [] := by decide +kernel
  exact table p p.mem_all solo

/-- In front of the bytes, which a line may end before, the pieces are scanned as what the slots ask for. -/
def Lays (slots : List Slot) (pieces : List Piece) (rest : Bytes) (newline : Bool) : Prop :=
  Covers slots (Lexeme.marks newline (text pieces ++ rest)) (Lexeme.marks false rest)

section Rules

variable {slots slots' : List Slot} {pieces pieces' : List Piece} {rest : Bytes} {newline : Bool}

theorem lays_nil : Lays [] [] rest false := rfl

theorem lays_token {t : Token} (back : t.ReadsBack (text pieces ++ rest)) (more : Lays slots pieces rest false) :
    Lays (.token t :: slots) (.token t :: pieces) rest newline := by
  refine ⟨newline, _, ?_, more⟩
  rw [Piece.text_token, List.append_assoc, Lexeme.marks_readsBack back]

theorem lays_space (more : Lays slots pieces rest newline) : Lays slots (.space :: pieces) rest newline := by
  have blank : Trivia.piece? (0x20 :: (text pieces ++ rest)) = some ⟨1, false⟩ := rfl
  have same := @Lexeme.marks_of_piece newline _ _ _ blank
  rw [Bool.or_false] at same
  change Covers slots (Lexeme.marks newline (0x20 :: (text pieces ++ rest))) _
  rwa [same]

theorem marks_spaces (count : Nat) (bytes : Bytes) (newline : Bool) :
    Lexeme.marks newline (Bytes.spaces count ++ bytes) = Lexeme.marks newline bytes := by
  induction count with
  | zero => rfl
  | succ count ih =>
    have blank : Trivia.piece? (0x20 :: (Bytes.spaces count ++ bytes)) = some ⟨1, false⟩ := rfl
    have same := @Lexeme.marks_of_piece newline _ _ _ blank
    rw [Bool.or_false] at same
    exact same.trans ih

theorem lays_newline {depth : Nat} (more : Lays slots pieces rest true) :
    Lays slots (.newline depth :: pieces) rest newline := by
  have line : Trivia.piece? (0x0A :: (Bytes.spaces (4 * depth) ++ (text pieces ++ rest))) = some ⟨1, true⟩ := rfl
  have same := @Lexeme.marks_of_piece newline _ _ _ line
  rw [Bool.or_true] at same
  have spaces := marks_spaces (4 * depth) (text pieces ++ rest) true
  change Covers slots (Lexeme.marks newline ((0x0A :: Bytes.spaces (4 * depth) ++ text pieces) ++ rest)) _
  rw [List.append_assoc, List.cons_append, same]
  change Covers slots (Lexeme.marks true (Bytes.spaces (4 * depth) ++ (text pieces ++ rest))) _
  rwa [spaces]

theorem lays_elision (more : Lays slots pieces rest newline) : Lays (.elision :: slots) pieces rest newline :=
  ⟨[], _, nofun, rfl, more⟩

/-- One part and then the others. -/
theorem Lays.append (part : Lays slots pieces (text pieces' ++ rest) newline) (more : Lays slots' pieces' rest false) :
    Lays (slots ++ slots') (pieces ++ pieces') rest newline := by
  rw [Lays, Piece.text_append, List.append_assoc]
  exact Covers.append part more

theorem lays_word (w : Word) (behind : calmOr [0x2B, 0x2D, 0x2E] (text pieces ++ rest) = true)
    (more : Lays slots pieces rest false) : Lays (.word w :: slots) (.word w :: pieces) rest newline :=
  lays_token (Token.keyword_readsBack w (goesOn_of_calmOr behind)) more

theorem lays_name {spelling : Bytes} (identifier : Name.identifier? spelling = some spelling)
    (behind : calmOr [0x2B, 0x2D, 0x2E] (text pieces ++ rest) = true) (more : Lays slots pieces rest false) :
    Lays (.name spelling :: slots) (.name spelling :: pieces) rest newline :=
  lays_token (Token.name_readsBack identifier (goesOn_of_calmOr behind)) more

/-- A punctuator in front of anything. -/
theorem lays_solo {p : Punct} (solo : p.isSolo = true) (more : Lays slots pieces rest false) :
    Lays (.punct p :: slots) (.punct p :: pieces) rest newline := by
  refine lays_token (Token.punct_readsBack ?_) more
  rw [Punct.joins_eq_nil solo]
  exact fun _ _ => List.not_mem_nil

/-- A token between two spaces. -/
theorem lays_spaced {t : Token} (back : ∀ {bytes}, calm bytes = true → t.ReadsBack bytes)
    (more : Lays slots pieces rest false) :
    Lays (.token t :: slots) (.space :: .token t :: .space :: pieces) rest newline :=
  lays_space (lays_token (back rfl) (lays_space more))

/-- No line ends before the first token. -/
theorem lays_sameLine (same : ∀ mark ∈ (Lexeme.marks false (text pieces ++ rest)).head?, mark.2 = false)
    (more : Lays slots pieces rest false) : Lays (.sameLine :: slots) pieces rest false :=
  ⟨same, more⟩

end Rules

/-- The pieces lay the slots out in front of all bytes of a class. -/
def LaysBefore (F : Bytes → Bool) (slots : List Slot) (pieces : List Piece) : Prop :=
  ∀ rest, F rest = true → ∀ newline, Lays slots pieces rest newline

section Lists

open Layout

variable {parts : List (List Slot)} {laid : List (List Piece)} {slots : List Slot} {pieces : List Piece}
  {rest : Bytes} {newline : Bool} {F : Bytes → Bool}

/-- Parts that begin with bytes of a class begin so one after the other. -/
theorem starts_flatten (heads : ∀ part ∈ laid, ∀ rest, F (text part ++ rest) = true)
    (behind : F (text pieces ++ rest) = true) : F (text (laid.flatten ++ pieces) ++ rest) = true := by
  cases laid with
  | nil => exact behind
  | cons first laid =>
    rw [List.flatten_cons, List.append_assoc, Piece.text_append, List.append_assoc]
    exact heads first List.mem_cons_self _

/-- Parts one after the other. If there are none, what comes behind them is the first. -/
theorem lays_flatten (each : List.Forall₂ (LaysBefore F) parts laid)
    (heads : ∀ part ∈ laid, ∀ rest, F (text part ++ rest) = true) (behind : F (text pieces ++ rest) = true)
    (more : Lays slots pieces rest (newline && laid.isEmpty)) :
    Lays (parts.flatten ++ slots) (laid.flatten ++ pieces) rest newline := by
  induction each generalizing newline with
  | nil => simpa using more
  | @cons part first parts laid lays _ ih =>
    have others : ∀ part ∈ laid, ∀ rest, F (text part ++ rest) = true :=
      fun part member => heads part (List.mem_cons_of_mem _ member)
    rw [List.flatten_cons, List.flatten_cons, List.append_assoc, List.append_assoc]
    refine (lays _ (starts_flatten others behind) newline).append (ih others ?_)
    simpa using more

/-- Parts with commas between them. -/
theorem lays_commas {extra : List Slot} (nothing : ∀ {slots pieces rest newline}, Lays slots pieces rest newline →
      Lays (extra ++ slots) pieces rest newline)
    (each : List.Forall₂ (LaysBefore calm) parts laid) (behind : calm (text pieces ++ rest) = true)
    (more : Lays slots pieces rest (newline && laid.isEmpty)) :
    Lays (Slot.separated (.punct .comma :: extra) parts ++ slots) (commas laid ++ pieces) rest newline := by
  induction each generalizing newline with
  | nil => simpa [Slot.separated, commas] using more
  | @cons part first parts laid lays others ih =>
    cases others with
    | nil => exact (lays _ behind newline).append (by simpa using more)
    | cons second others =>
      simp only [Slot.separated, commas, List.append_assoc, List.cons_append, List.nil_append]
      refine (lays _ rfl newline).append (lays_solo rfl (nothing (lays_space (ih ?_))))
      simpa using more

/-- Parts on lines of their own. -/
theorem lays_lines {depth : Nat} (each : List.Forall₂ (LaysBefore calm) parts laid)
    (behind : calm (text pieces ++ rest) = true) (more : Lays slots pieces rest (newline && laid.isEmpty)) :
    Lays (parts.flatten ++ slots) (lines depth laid ++ pieces) rest newline := by
  have heads : ∀ part ∈ laid.map (Piece.newline depth :: ·), ∀ rest, calm (text part ++ rest) = true := by
    intro part member rest
    obtain ⟨part, -, rfl⟩ := List.mem_map.mp member
    rfl
  have each : List.Forall₂ (LaysBefore calm) parts (laid.map (Piece.newline depth :: ·)) := by
    rw [List.forall₂_map_right_iff]
    exact each.imp fun part laid lays rest behind newline => lays_newline (lays rest behind true)
  rw [lines, List.flatMap]
  refine lays_flatten each heads behind ?_
  simpa using more

/-- Parts in braces. -/
theorem lays_braces {depth : Nat} (each : List.Forall₂ (LaysBefore calm) parts laid)
    (more : Lays slots pieces rest false) :
    Lays (.punct .lbrace :: (parts.flatten ++ .punct .rbrace :: slots)) (braces depth laid ++ pieces) rest newline := by
  cases each with
  | nil => exact lays_solo rfl (lays_solo rfl more)
  | cons lays others =>
    have each := List.Forall₂.cons lays others
    simp only [braces, List.isEmpty_cons, Bool.false_eq_true, if_false, List.append_assoc, List.singleton_append]
    refine lays_solo rfl (lays_lines each rfl ?_)
    exact lays_newline (lays_solo rfl more)

/-- An expression in the parentheses of a statement's head. -/
theorem lays_head {w : Word} {slots' : List Slot} {pieces' : List Piece}
    (inside : LaysBefore calm slots' pieces') (more : Lays slots pieces rest false) :
    Lays (Slot.head w slots' ++ slots) (head w pieces' ++ pieces) rest newline := by
  simp only [Slot.head, head, List.append_assoc, List.cons_append, List.nil_append]
  refine lays_word w rfl (lays_space (lays_solo rfl ((inside _ rfl false).append ?_)))
  exact lays_solo rfl (lays_space more)

/-- A function with its parameters and its body. -/
theorem lays_function {depth : Nat} {own : Option Bytes} {params : List Bytes}
    (identifier : ∀ n ∈ own, Name.identifier? n = some n) (identifiers : ∀ n ∈ params, Name.identifier? n = some n)
    (each : List.Forall₂ (LaysBefore calm) parts laid) :
    Lays (Slot.function own params parts.flatten) (function depth own params laid) rest newline := by
  have names : List.Forall₂ (LaysBefore calm) (params.map fun n => [Slot.name n])
      (params.map fun n => [Piece.name n]) := by
    rw [List.forall₂_map_left_iff, List.forall₂_map_right_iff, List.forall₂_same]
    exact fun n member rest behind newline => lays_name (identifiers n member) (calmOr_of_calm behind) lays_nil
  have listed : Lays (Slot.punct .lparen :: (Slot.separated [.punct .comma] (params.map fun n => [Slot.name n]) ++
        .punct .rparen :: .punct .lbrace :: (parts.flatten ++ [.punct .rbrace])))
      (.punct .lparen :: (commas (params.map fun n => [Piece.name n]) ++
        .punct .rparen :: .space :: (braces depth laid ++ []))) rest false := by
    refine lays_solo rfl (lays_commas (fun lays => lays) names rfl (lays_solo rfl (lays_space ?_)))
    exact lays_braces each lays_nil
  cases own with
  | none =>
    simp only [Slot.function, function, Option.toList_none, List.map_nil, List.flatMap_nil, List.append_assoc,
      List.cons_append, List.nil_append]
    refine lays_word .kwFunction rfl ?_
    simpa using listed
  | some name =>
    simp only [Slot.function, function, Option.toList_some, List.map_cons, List.map_nil, List.flatMap_cons,
      List.flatMap_nil, List.append_assoc, List.cons_append, List.nil_append]
    refine lays_word .kwFunction rfl (lays_space (lays_name (identifier name rfl) rfl ?_))
    simpa using listed

end Lists

end EcmaFold
