import EcmaFold.Proofs.Lexer.Lookahead

/-!
A source cut into chunks: pieces of trivia and spellings of tokens. What a chunk is depends on the bytes behind
it only in that they must not join with it, so chunks stay what they are when the bytes behind them are cut off,
and when a line end is put behind them.
-/

namespace EcmaFold

/-! Pieces of trivia -/

namespace Trivia

/-- The text is one piece of trivia in front of the rest; the flag says whether a line ends in it. -/
inductive IsPiece : (text rest : Bytes) → (newline : Bool) → Prop where
  | blank {b : UInt8} {rest : Bytes} (isBlank : b = 0x20 ∨ b = 0x09 ∨ b = 0x0B ∨ b = 0x0C) : IsPiece [b] rest false
  | line {b : UInt8} {rest : Bytes} (isLine : b = 0x0A ∨ b = 0x0D) : IsPiece [b] rest true
  | lineComment {body rest : Bytes} (ends : lineWidth (body ++ rest) = body.length) :
      IsPiece (0x2F :: 0x2F :: body) rest false
  | blockComment {body rest : Bytes} {newline : Bool}
      (closed : ∀ behind, blockRest? (body ++ behind) = some ⟨body.length, newline⟩) :
      IsPiece (0x2F :: 0x2A :: body) rest newline
  | wide {b : UInt8} {text rest : Bytes} {newline : Bool} (wide : ¬ b < 0x80)
      (found : ∀ behind, wideBlank? (b :: (text ++ behind)) = some ⟨text.length + 1, newline⟩) :
      IsPiece (b :: text) rest newline

theorem IsPiece.piece? {text rest : Bytes} {newline : Bool} (isPiece : IsPiece text rest newline) :
    Trivia.piece? (text ++ rest) = some ⟨text.length, newline⟩ := by
  cases isPiece with
  | blank isBlank => exact if_pos isBlank
  | @line b _ isLine =>
    have noBlank : ¬ (b = 0x20 ∨ b = 0x09 ∨ b = 0x0B ∨ b = 0x0C) := by
      rcases isLine with rfl | rfl <;> decide
    exact (if_neg noBlank).trans (if_pos isLine)
  | lineComment ends => simp [Trivia.piece?, ends]
  | blockComment closed => simp [Trivia.piece?, closed]
  | @wide b text _ newline wide found =>
    have noAscii : ∀ a : UInt8, a < 0x80 → b ≠ a := by
      rintro a ascii rfl
      exact wide ascii
    simp [Trivia.piece?, noAscii, wide, found]

theorem IsPiece.ne_nil {text rest : Bytes} {newline : Bool} (isPiece : IsPiece text rest newline) : text ≠ [] := by
  cases isPiece <;> exact List.cons_ne_nil _ _

theorem wideBlank?_eq_some {bytes : Bytes} {gap : Gap} (found : wideBlank? bytes = some gap) :
    ∃ text rest, bytes = text ++ rest ∧ gap.width = text.length ∧ text ≠ [] ∧
      ∀ behind, wideBlank? (text ++ behind) = some gap := by
  unfold wideBlank? at found
  split at found
  · rename_i c width decoded
    obtain ⟨rest, rfl, rfl⟩ := Utf8.decode?_eq_some decoded
    have nonempty : Utf8.encode c ≠ [] := List.ne_nil_of_length_pos (Utf8.encode_length_pos c)
    refine ⟨Utf8.encode c, rest, rfl, by grind, nonempty, fun behind => ?_⟩
    rw [wideBlank?, Utf8.decode?_encode]
    exact found
  · cases found

theorem lineWidth_le (bytes : Bytes) : lineWidth bytes ≤ bytes.length := by
  induction bytes with
  | nil => exact Nat.le_refl _
  | cons b rest ih =>
    rw [lineWidth]
    split
    · exact Nat.zero_le _
    · exact Nat.succ_le_succ ih

/-- What is found as a piece is one. -/
theorem piece?_eq_some {bytes : Bytes} {gap : Gap} (found : Trivia.piece? bytes = some gap) :
    ∃ text rest, bytes = text ++ rest ∧ gap.width = text.length ∧ IsPiece text rest gap.newline := by
  obtain _ | ⟨b, bytes⟩ := bytes
  · cases found
  simp only [Trivia.piece?] at found
  split at found
  · rename_i isBlank
    cases found
    exact ⟨[b], bytes, rfl, rfl, .blank isBlank⟩
  split at found
  · rename_i isLine
    cases found
    exact ⟨[b], bytes, rfl, rfl, .line isLine⟩
  split at found
  · rename_i isSlash
    subst isSlash
    split at found
    · rename_i comment
      cases found
      have width : (comment.take (lineWidth comment)).length = lineWidth comment :=
        List.length_take_of_le (lineWidth_le comment)
      refine ⟨0x2F :: 0x2F :: comment.take (lineWidth comment), comment.drop (lineWidth comment), ?_, ?_,
        .lineComment ?_⟩
      · simp
      · simp [width]
      · rw [List.take_append_drop, width]
    · rename_i comment
      obtain ⟨inner, closed, rfl⟩ := Option.map_eq_some_iff.mp found
      obtain ⟨body, rest, rfl, width, -, again⟩ := blockRest?_eq_some closed
      refine ⟨0x2F :: 0x2A :: body, rest, rfl, congrArg (· + 2) width, .blockComment fun behind => ?_⟩
      rw [again, ← width]
    · cases found
  split at found
  · cases found
  · rename_i wide
    obtain ⟨text, rest, same, width, nonempty, again⟩ := wideBlank?_eq_some found
    obtain _ | ⟨first, text⟩ := text
    · exact absurd rfl nonempty
    · obtain ⟨rfl, rfl⟩ := List.cons.inj same
      refine ⟨b :: text, rest, rfl, width, .wide wide fun behind => ?_⟩
      have again := again behind
      rw [List.cons_append] at again
      rw [again, ← List.length_cons, ← width]

/-- A line terminator is a piece of its own. -/
theorem piece?_of_atLineTerminator {bytes : Bytes} (ends : atLineTerminator bytes = true) :
    ∃ width, Trivia.piece? bytes = some ⟨width, true⟩ ∧ atLineTerminator (bytes.take width) = true := by
  obtain _ | ⟨b, bytes⟩ := bytes
  · cases ends
  rcases (atLineTerminator_cons b bytes).mp ends with rfl | rfl | ⟨rfl, wide⟩
  · exact ⟨1, rfl, rfl⟩
  · exact ⟨1, rfl, rfl⟩
  · refine ⟨3, ?_⟩
    rw [← List.take_append_drop 2 bytes]
    rcases wide with same | same
    · rw [same]
      exact ⟨rfl, rfl⟩
    · rw [same]
      exact ⟨rfl, rfl⟩

/-- A piece stays one when the bytes behind it are cut, unless the cut goes through the terminator of its line. -/
theorem IsPiece.cut {text rest behind : Bytes} {newline : Bool} (isPiece : IsPiece text (rest ++ behind) newline)
    (whole : atLineTerminator (rest ++ behind) = true → rest = [] ∨ atLineTerminator rest = true) :
    IsPiece text rest newline := by
  cases isPiece with
  | blank isBlank => exact .blank isBlank
  | line isLine => exact .line isLine
  | blockComment closed => exact .blockComment closed
  | wide wide found => exact .wide wide found
  | @lineComment body _ ends =>
    have stops := behind_line (body ++ (rest ++ behind))
    rw [ends, List.drop_left] at stops
    refine .lineComment (lineWidth_behind ends ?_ fun part _ outside => ?_)
    · rcases stops with empty | stops
      · exact .inl (List.append_eq_nil_iff.mp empty).1
      · exact whole stops
    · rw [← Bool.not_eq_true] at outside ⊢
      intro inside
      rw [← List.append_assoc] at outside
      exact outside (atLineTerminator_append inside behind)

theorem asciiHead_nil : Bytes.AsciiHead [] := by
  rintro b ⟨⟩

/-- A piece stays one when a line end is put behind the bytes. -/
theorem IsPiece.extend {text rest : Bytes} {newline : Bool} (isPiece : IsPiece text rest newline) (behind : Bytes) :
    IsPiece text (rest ++ 0x0A :: behind) newline := by
  cases isPiece with
  | blank isBlank => exact .blank isBlank
  | line isLine => exact .line isLine
  | blockComment closed => exact .blockComment closed
  | wide wide found => exact .wide wide found
  | @lineComment body _ ends =>
    have stops := behind_line (body ++ rest)
    rw [ends, List.drop_left] at stops
    refine .lineComment (lineWidth_behind ends (.inr ?_) fun part nonempty outside => ?_)
    · rcases stops with rfl | stops
      · rfl
      · exact atLineTerminator_append stops _
    · rw [← List.append_assoc]
      rw [atLineTerminator_behind (by simp [nonempty]) (Bytes.asciiHead_cons (by decide) behind) asciiHead_nil, List.append_nil]
      exact outside

end Trivia

/-! Spellings of tokens -/

theorem StringLiteral.exists_quote {bytes : Bytes} {found : Bytes × Nat} (literal : read? bytes = some found) :
    ∃ quote rest, bytes = quote :: rest ∧ (quote = 0x22 ∨ quote = 0x27) := by
  obtain _ | ⟨quote, rest⟩ := bytes
  · cases literal
  rw [read?] at literal
  split at literal
  · rename_i isQuote
    exact ⟨quote, rest, rfl, isQuote⟩
  · cases literal

namespace Punct

theorem blank_not_mem_joins (p : Punct) : 0x0A ∉ p.joins ∧ 0x20 ∉ p.joins := by
  have table : ∀ p ∈ all, 0x0A ∉ p.joins ∧ 0x20 ∉ p.joins := by decide +kernel
  exact table p p.mem_all

/-- What joins with a punctuator makes a longer one, a number or a comment. -/
theorem joins_cases {p : Punct} : ∀ b ∈ p.joins, (∃ q ∈ longestFirst, q.spelling = p.spelling ++ [b]) ∨
    p = dot ∧ Bytes.isDigit b = true ∨ p = div ∧ (b = 0x2F ∨ b = 0x2A) := by
  have table : ∀ p ∈ all, (p.joins.all fun b => (∃ q ∈ longestFirst, q.spelling = p.spelling ++ [b]) ∨
      p = dot ∧ Bytes.isDigit b = true ∨ p = div ∧ (b = 0x2F ∨ b = 0x2A)) = true := by decide +kernel
  exact fun b member => of_decide_eq_true (List.all_eq_true.mp (table p p.mem_all) b member)

/-- The longest punctuator is not the beginning of another one that stands there. -/
theorem longest?_eq_some {bytes : Bytes} {p : Punct} (found : longest? bytes = some p) :
    ∃ rest, bytes = p.spelling ++ rest ∧ ∀ b ∈ rest.head?, ∀ q ∈ longestFirst, q.spelling ≠ p.spelling ++ [b] := by
  obtain ⟨isPrefix, before, behind, split, noLonger⟩ := List.find?_eq_some_iff_append.mp found
  obtain ⟨rest, rfl⟩ := List.isPrefixOf_iff_prefix.mp isPrefix
  refine ⟨rest, rfl, fun b first q member longer => ?_⟩
  obtain ⟨tail, rfl⟩ := List.head?_eq_some_iff.mp first
  have ordered := longestFirst_ordered
  rw [split] at member ordered
  rcases List.mem_append.mp member with inBefore | inRest
  · have stands : q.spelling.isPrefixOf (p.spelling ++ b :: tail) = true := by
      rw [List.isPrefixOf_iff_prefix, longer, List.append_cons p.spelling b tail]
      exact List.prefix_append _ _
    have refused := noLonger q inBefore
    rw [stands] at refused
    cases refused
  · have length := congrArg List.length longer
    rw [List.length_append, List.length_singleton] at length
    rcases List.mem_cons.mp inRest with rfl | inBehind
    · omega
    · have shorter := ((List.pairwise_cons.mp (List.pairwise_append.mp ordered).2.1).1 q inBehind).1
      omega

end Punct

namespace Token

/-- The text is a spelling of the token, and the bytes behind do not join with it. -/
inductive Spells : (t : Token) → (text rest : Bytes) → Prop where
  | number {value : Number} {rest : Bytes} (clean : Number.read? value.raw = some value)
      (stops : Name.goesOn rest = false)
      (noPoint : Layout.takesPoint value = true → ∀ b ∈ rest.head?, b ≠ 0x2E) : Spells (.number value) value.raw rest
  | string {value text rest : Bytes} (found : ∀ behind, StringLiteral.read? (text ++ behind) = some (value, text.length)) :
      Spells (.string value) text rest
  | name {spelling rest : Bytes} (spelled : Name.read? spelling = some spelling) (stops : Name.goesOn rest = false) :
      Spells (.ofName spelling) spelling rest
  | punct {p : Punct} {rest : Bytes} (apart : ∀ b ∈ rest.head?, b ∉ p.joins) : Spells (.punct p) p.spelling rest

/-- A spelling is read as the token, and it is no trivia. -/
theorem Spells.reads {t : Token} {text rest : Bytes} (spells : t.Spells text rest) :
    Trivia.piece? (text ++ rest) = none ∧ read (text ++ rest) = (t, text.length) := by
  cases spells with
  | number clean stops noPoint => exact number_readsBack clean stops noPoint
  | @string value text rest found =>
    obtain ⟨quote, tail, same, isQuote⟩ := StringLiteral.exists_quote (found rest)
    have noNumber : Number.read? (text ++ rest) = none := by
      rw [same]
      rcases isQuote with rfl | rfl <;> exact Number.read?_eq_none (by decide) fun isPoint => absurd isPoint (by decide)
    refine ⟨?_, by rw [read, noNumber, found]⟩
    rw [same]
    rcases isQuote with rfl | rfl <;> rfl
  | name spelled stops =>
    have back := ofName_readsBack spelled stops
    rwa [ReadsBack, spelling_ofName] at back
  | punct apart => exact punct_readsBack apart

theorem Spells.ne_nil {t : Token} {text rest : Bytes} (spells : t.Spells text rest) : text ≠ [] := by
  rintro rfl
  obtain ⟨-, found⟩ := spells.reads
  obtain _ | ⟨b, rest⟩ := rest
  · cases found
  · have positive := read_width_pos b rest
    rw [List.nil_append] at found
    rw [found] at positive
    cases positive

/-- A spelling stays one when the bytes behind it are cut. -/
theorem Spells.cut {t : Token} {text rest behind : Bytes} (spells : t.Spells text (rest ++ behind)) :
    t.Spells text rest := by
  have heads {P : UInt8 → Prop} (all : ∀ b ∈ (rest ++ behind).head?, P b) : ∀ b ∈ rest.head?, P b := by
    intro b first
    refine all b ?_
    rw [List.head?_append, Option.mem_def.mp first]
    rfl
  cases spells with
  | number clean stops noPoint => exact .number clean (Name.goesOn_cut stops) fun takes => heads (noPoint takes)
  | string found => exact .string found
  | name spelled stops => exact .name spelled (Name.goesOn_cut stops)
  | punct apart => exact .punct (heads apart)

/-- A spelling stays one when a line end or a space is put behind the bytes. -/
theorem Spells.extend {t : Token} {text rest : Bytes} (spells : t.Spells text rest) {b : UInt8}
    (blank : b = 0x0A ∨ b = 0x20) (behind : Bytes) : t.Spells text (rest ++ b :: behind) := by
  have heads {P : UInt8 → Prop} (all : ∀ next ∈ rest.head?, P next) (apart : P b) :
      ∀ next ∈ (rest ++ b :: behind).head?, P next := by
    cases rest with
    | nil =>
      rintro _ ⟨⟩
      exact apart
    | cons first rest => exact all
  have ends (stops : Name.goesOn rest = false) : Name.goesOn (rest ++ b :: behind) = false := by
    have ascii : b < 0x80 := by rcases blank with rfl | rfl <;> decide
    cases rest with
    | nil => rcases blank with rfl | rfl <;> rfl
    | cons first rest =>
      rw [Name.goesOn_behind (List.cons_ne_nil first rest) (Bytes.asciiHead_cons ascii behind) Trivia.asciiHead_nil,
        List.append_nil]
      exact stops
  cases spells with
  | number clean stops noPoint =>
    exact .number clean (ends stops) fun takes => heads (noPoint takes) (by rcases blank with rfl | rfl <;> decide)
  | string found => exact .string found
  | name spelled stops => exact .name spelled (ends stops)
  | @punct p _ apart =>
    obtain ⟨noFeed, noSpace⟩ := p.blank_not_mem_joins
    exact .punct (heads apart (by rcases blank with rfl | rfl <;> assumption))

/-- What is read as a token is a spelling of it, unless a point stands before a digit or a slash opens a comment. -/
theorem exists_spells {bytes : Bytes} {t : Token} {width : Nat}
    (noTrivia : t = punct .div → Trivia.piece? bytes = none) (found : read bytes = (t, width)) (noStray : ∀ text, t ≠ stray text)
    (apart : ∀ b ∈ (bytes.drop width).head?,
      (t = punct .dot → Bytes.isDigit b = false) ∧ (t = punct .div → b ≠ 0x2A)) :
    ∃ text rest, bytes = text ++ rest ∧ width = text.length ∧ t.Spells text rest := by
  unfold read at found
  split at found
  · rename_i value number
    cases found
    obtain ⟨-, -, -, rest, rfl, stops⟩ := Number.read?_eq_some number
    exact ⟨_, rest, rfl, rfl, .number (Number.read?_self number) stops (Number.noPoint_of_read? number)⟩
  split at found
  · rename_i value taken literal
    cases found
    obtain ⟨text, rest, rfl, rfl, again⟩ := StringLiteral.read?_eq_some literal
    exact ⟨text, rest, rfl, rfl, .string again⟩
  split at found
  · rename_i spelling name
    cases found
    obtain ⟨-, rest, rfl, stops⟩ := Name.read?_eq_some name
    exact ⟨spelling, rest, rfl, rfl, .name (Name.read?_self name) stops⟩
  split at found
  · rename_i p longest
    cases found
    obtain ⟨rest, rfl, noLonger⟩ := Punct.longest?_eq_some longest
    rw [List.drop_left] at apart
    refine ⟨p.spelling, rest, rfl, rfl, .punct fun b first joins => ?_⟩
    rcases Punct.joins_cases b joins with ⟨q, member, longer⟩ | ⟨rfl, digit⟩ | ⟨rfl, rfl | rfl⟩
    · exact noLonger b first q member longer
    · rw [(apart b first).1 rfl] at digit
      cases digit
    · obtain ⟨tail, rfl⟩ := List.head?_eq_some_iff.mp first
      cases noTrivia rfl
    · exact (apart _ first).2 rfl rfl
  · obtain ⟨text, taken, same⟩ := exists_strayAt bytes
    rw [same] at found
    cases found
    exact absurd rfl (noStray text)

/-- Whether a slash in front of the token would open a comment. -/
def opensComment : Token → Bool
  | punct .mul | punct .mulAssign => true
  | _ => false

def isWord : Token → Bool
  | name _ | keyword _ => true
  | _ => false

/-- Whether the next token keeps the token from being read otherwise, whatever the bytes behind it are: a slash
must not open a comment, and a point must not begin a number. -/
def admits : (t : Token) → (next : Option Token) → Bool
  | punct .div, next => next.any fun t => !t.opensComment
  | punct .dot, next => next.any isWord
  | _, _ => true

/-- Each token is admitted by the next one. -/
def Settled : List Token → Prop
  | [] => True
  | t :: rest => t.admits rest.head? = true ∧ Settled rest

theorem read_star (rest : Bytes) :
    Trivia.piece? (0x2A :: rest) = none ∧ (read (0x2A :: rest)).1.opensComment = true := by
  cases rest with
  | nil => exact ⟨rfl, rfl⟩
  | cons b rest =>
    by_cases longer : b = 0x3D
    · subst longer
      obtain ⟨noTrivia, found⟩ := @punct_readsBack .mulAssign rest (by rintro b _ ⟨⟩)
      exact ⟨noTrivia, congrArg (·.1.opensComment) found⟩
    · have joins : Punct.mul.joins = [0x3D] := by decide +kernel
      obtain ⟨noTrivia, found⟩ := @punct_readsBack .mul (b :: rest) (by rintro _ ⟨⟩; simpa [joins] using longer)
      exact ⟨noTrivia, congrArg (·.1.opensComment) found⟩

theorem read_digit {b : UInt8} (digit : Bytes.isDigit b = true) (rest : Bytes) :
    Trivia.piece? (b :: rest) = none ∧ (read (b :: rest)).1.isWord = false := by
  have table : ∀ b : UInt8, Bytes.isDigit b = true → b < 0x80 ∧ Name.isStart (Char.ofNat b.toNat) = false ∧
      ¬ (b = 0x20 ∨ b = 0x09 ∨ b = 0x0B ∨ b = 0x0C) ∧ ¬ (b = 0x0A ∨ b = 0x0D) ∧ b ≠ 0x2F := by
    refine Bytes.forall_byte ?_
    decide +kernel
  obtain ⟨ascii, noStart, noBlank, noLine, noSlash⟩ := table b digit
  refine ⟨?_, ?_⟩
  · rw [Trivia.piece?_visible noBlank noLine fun isSlash => absurd isSlash noSlash, if_pos ascii]
  · unfold read
    split
    · rfl
    split
    · rfl
    split
    · rename_i found
      rw [Name.read?_eq_none rest ascii noStart] at found
      cases found
    split
    · rfl
    · obtain ⟨text, width, same⟩ := exists_strayAt (b :: rest)
      rw [same]
      rfl

end Token

namespace Lexeme

/-- The text, in front of the rest, is cut into pieces of trivia and the lexemes. It stands at the offset, and the
first flag says whether a line ends before it in the same trivia, the last one whether a line ends behind the last
lexeme. -/
inductive Scans : (offset : Nat) → (newline : Bool) → (text rest : Bytes) → List Lexeme → (last : Bool) → Prop where
  | done {offset : Nat} {newline : Bool} {rest : Bytes} : Scans offset newline [] rest [] newline
  | piece {offset : Nat} {newline broken last : Bool} {first more rest : Bytes} {lexemes : List Lexeme}
      (isPiece : Trivia.IsPiece first (more ++ rest) broken)
      (tail : Scans (offset + first.length) (newline || broken) more rest lexemes last) :
      Scans offset newline (first ++ more) rest lexemes last
  | token {offset : Nat} {newline last : Bool} {t : Token} {first more rest : Bytes} {lexemes : List Lexeme}
      (spells : t.Spells first (more ++ rest)) (tail : Scans (offset + first.length) false more rest lexemes last) :
      Scans offset newline (first ++ more) rest (⟨t, newline, ⟨offset, offset + first.length⟩⟩ :: lexemes) last

/-- Bytes that belong to what was read last are passed over. -/
theorem scanFrom_pending {pending : Nat} (offset : Nat) (newline : Bool) {bytes : Bytes}
    (inside : pending ≤ bytes.length) :
    scanFrom pending offset newline bytes = scanFrom 0 (offset + pending) newline (bytes.drop pending) := by
  induction pending generalizing offset bytes with
  | zero => rfl
  | succ pending ih =>
    obtain _ | ⟨b, bytes⟩ := bytes
    · cases inside
    · rw [scanFrom, ih (offset + 1) (Nat.le_of_succ_le_succ inside), List.drop_succ_cons]
      congr 1
      omega

theorem scanFrom_of_piece {offset : Nat} {newline : Bool} {text rest : Bytes} {piece : Gap}
    (found : Trivia.piece? (text ++ rest) = some piece) (width : piece.width = text.length) (nonempty : text ≠ []) :
    scanFrom 0 offset newline (text ++ rest) =
      scanFrom 0 (offset + text.length) (newline || piece.newline) rest := by
  obtain _ | ⟨b, text⟩ := text
  · exact absurd rfl nonempty
  · rw [List.cons_append] at found ⊢
    rw [scanFrom, found]
    simp only [width, List.length_cons, Nat.add_sub_cancel]
    rw [scanFrom_pending _ _ (by simp), List.drop_left]
    congr 1
    omega

theorem scanFrom_of_read {offset : Nat} {newline : Bool} {b : UInt8} {rest : Bytes}
    (noTrivia : Trivia.piece? (b :: rest) = none) :
    scanFrom 0 offset newline (b :: rest) =
      ⟨(Token.read (b :: rest)).1, newline, ⟨offset, offset + (Token.read (b :: rest)).2⟩⟩ ::
        scanFrom ((Token.read (b :: rest)).2 - 1) (offset + 1) false rest := by
  rw [scanFrom, noTrivia]

theorem scanFrom_of_token {offset : Nat} {newline : Bool} {t : Token} {text rest : Bytes}
    (noTrivia : Trivia.piece? (text ++ rest) = none) (found : Token.read (text ++ rest) = (t, text.length))
    (nonempty : text ≠ []) :
    scanFrom 0 offset newline (text ++ rest) = ⟨t, newline, ⟨offset, offset + text.length⟩⟩ ::
      scanFrom 0 (offset + text.length) false rest := by
  obtain _ | ⟨b, text⟩ := text
  · exact absurd rfl nonempty
  · rw [List.cons_append] at noTrivia found ⊢
    rw [scanFrom_of_read noTrivia, found]
    simp only [List.length_cons, Nat.add_sub_cancel]
    rw [scanFrom_pending _ _ (by simp), List.drop_left]
    congr 2
    omega

/-- The lexemes of a text that is cut, and behind them those of the rest. -/
theorem Scans.scanFrom {offset : Nat} {newline last : Bool} {text rest : Bytes} {lexemes : List Lexeme}
    (scans : Scans offset newline text rest lexemes last) :
    Lexeme.scanFrom 0 offset newline (text ++ rest) =
      lexemes ++ Lexeme.scanFrom 0 (offset + text.length) last rest := by
  induction scans with
  | done => rfl
  | @piece offset newline broken last first more rest lexemes isPiece tail ih =>
    rw [List.append_assoc, scanFrom_of_piece isPiece.piece? rfl isPiece.ne_nil, ih, List.length_append, Nat.add_assoc]
  | @token offset newline last t first more rest lexemes spells tail ih =>
    rw [List.append_assoc, scanFrom_of_token spells.reads.1 spells.reads.2 spells.ne_nil, ih, List.length_append,
      Nat.add_assoc]
    rfl

/-- A line terminator at the beginning of a text lies in it. -/
theorem Scans.atLineTerminator {offset : Nat} {newline last : Bool} {text rest : Bytes} {lexemes : List Lexeme}
    (scans : Scans offset newline text rest lexemes last) (ends : EcmaFold.atLineTerminator (text ++ rest) = true) :
    text = [] ∨ EcmaFold.atLineTerminator text = true := by
  obtain ⟨width, found, inside⟩ := Trivia.piece?_of_atLineTerminator ends
  cases scans with
  | done => exact .inl rfl
  | @piece _ _ _ _ first more _ _ isPiece tail =>
    rw [List.append_assoc, isPiece.piece?] at found
    cases found
    rw [List.append_assoc, List.take_left] at inside
    exact .inr (atLineTerminator_append inside more)
  | token spells tail =>
    rw [List.append_assoc, spells.reads.1] at found
    cases found

/-- A text that is cut into lexemes is cut into the same ones when the bytes behind it are cut off. -/
theorem Scans.cut {offset : Nat} {newline last : Bool} {text rest : Bytes} {lexemes : List Lexeme}
    (scans : Scans offset newline text rest lexemes last) : Scans offset newline text [] lexemes last := by
  induction scans with
  | done => exact .done
  | @piece offset newline broken last first more rest lexemes isPiece tail ih =>
    refine .piece ?_ ih
    rw [List.append_nil]
    exact isPiece.cut tail.atLineTerminator
  | @token offset newline last t first more rest lexemes spells tail ih =>
    refine .token ?_ ih
    rw [List.append_nil]
    exact spells.cut

/-- A text that is cut into lexemes is cut into the same ones in front of a line end. -/
theorem Scans.extend {offset : Nat} {newline last : Bool} {text : Bytes} {lexemes : List Lexeme}
    (scans : Scans offset newline text [] lexemes last) (behind : Bytes) :
    Scans offset newline text (0x0A :: behind) lexemes last := by
  generalize nothing : ([] : Bytes) = rest at scans
  induction scans with
  | done => exact .done
  | @piece offset newline broken last first more rest lexemes isPiece tail ih =>
    subst nothing
    rw [List.append_nil] at isPiece
    exact .piece (isPiece.extend behind) (ih rfl)
  | @token offset newline last t first more rest lexemes spells tail ih =>
    subst nothing
    rw [List.append_nil] at spells
    exact .token (spells.extend (.inl rfl) behind) (ih rfl)

/-- What follows a token that the next lexeme admits does not join with it. -/
theorem apart_of_admits {t : Token} {offset : Nat} {rest : Bytes} {front back : List Lexeme}
    (scanned : Lexeme.scanFrom 0 offset false rest = front ++ back) (admitted : t.admits (front.map token).head? = true) :
    ∀ b ∈ rest.head?, (t = .punct .dot → Bytes.isDigit b = false) ∧ (t = .punct .div → b ≠ 0x2A) := by
  intro b first
  obtain ⟨tail, rfl⟩ := List.head?_eq_some_iff.mp first
  have next (noTrivia : Trivia.piece? (b :: tail) = none) {test : Token → Bool}
      (found : ((front.map token).head?.any test) = true) : test (Token.read (b :: tail)).1 = true := by
    obtain _ | ⟨lexeme, front⟩ := front
    · cases found
    · rw [scanFrom_of_read noTrivia] at scanned
      rw [← (List.cons.inj scanned).1] at found
      exact found
  refine ⟨?_, ?_⟩
  · rintro rfl
    rw [← Bool.not_eq_true]
    intro digit
    obtain ⟨noTrivia, noWord⟩ := Token.read_digit digit tail
    rw [next noTrivia admitted] at noWord
    cases noWord
  · rintro rfl rfl
    obtain ⟨noTrivia, opens⟩ := Token.read_star tail
    have closed := next noTrivia admitted
    rw [opens] at closed
    cases closed

/-- A lexeme that the next one admits is cut from the beginning of the source. -/
theorem exists_token {offset : Nat} {newline : Bool} {bytes : Bytes} {lexeme : Lexeme} {front back : List Lexeme}
    (scanned : Lexeme.scanFrom 0 offset newline bytes = lexeme :: (front ++ back)) (nonempty : back ≠ [])
    (noTrivia : Trivia.piece? bytes = none) (admitted : lexeme.token.admits (front.map token).head? = true)
    (noStray : ∀ text, lexeme.token ≠ .stray text) :
    ∃ text rest, bytes = text ++ rest ∧ lexeme = ⟨lexeme.token, newline, ⟨offset, offset + text.length⟩⟩ ∧
      lexeme.token.Spells text rest ∧ Lexeme.scanFrom 0 (offset + text.length) false rest = front ++ back := by
  obtain _ | ⟨b, bytes⟩ := bytes
  · obtain ⟨-, empty⟩ := List.cons.inj scanned
    exact absurd (List.append_eq_nil_iff.mp empty.symm).2 nonempty
  obtain ⟨rfl, tail⟩ := List.cons.inj ((scanFrom_of_read noTrivia).symm.trans scanned)
  have positive := Token.read_width_pos b bytes
  have apart : ∀ next ∈ ((b :: bytes).drop (Token.read (b :: bytes)).2).head?,
      ((Token.read (b :: bytes)).1 = .punct .dot → Bytes.isDigit next = false) ∧
        ((Token.read (b :: bytes)).1 = .punct .div → next ≠ 0x2A) := by
    obtain ⟨more, width⟩ := Nat.exists_eq_add_of_lt positive
    rw [width] at tail ⊢
    rw [Nat.zero_add, Nat.add_sub_cancel] at tail
    rw [Nat.zero_add, List.drop_succ_cons]
    by_cases inside : more ≤ bytes.length
    · rw [scanFrom_pending _ _ inside] at tail
      exact apart_of_admits tail admitted
    · rw [List.drop_eq_nil_of_le (by omega)]
      rintro _ ⟨⟩
  obtain ⟨text, rest, same, width, spells⟩ :=
    @Token.exists_spells _ (Token.read (b :: bytes)).1 (Token.read (b :: bytes)).2 (fun _ => noTrivia) rfl noStray apart
  rw [same, scanFrom_of_token spells.reads.1 spells.reads.2 spells.ne_nil] at scanned
  refine ⟨text, rest, same, ?_, spells, (List.cons.inj scanned).2⟩
  rw [← width]

/-- Settled lexemes at the beginning of a source are cut from a text of their own. -/
theorem exists_scans {offset : Nat} {newline : Bool} {bytes : Bytes} {front back : List Lexeme}
    (scanned : Lexeme.scanFrom 0 offset newline bytes = front ++ back) (nonempty : back ≠ [])
    (settled : Token.Settled (front.map token)) (noStray : ∀ lexeme ∈ front, ∀ text, lexeme.token ≠ .stray text) :
    ∃ text rest last, bytes = text ++ rest ∧ Scans offset newline text rest front last ∧
      Lexeme.scanFrom 0 (offset + text.length) last rest = back ∧ Trivia.piece? rest = none := by
  generalize length : bytes.length = n
  induction n using Nat.strongRecOn generalizing offset newline bytes front with
  | _ n ih =>
    have shorter {first rest : Bytes} (nonempty : first ≠ []) (same : bytes = first ++ rest) : rest.length < n := by
      have positive := List.length_pos_iff.mpr nonempty
      rw [same, List.length_append] at length
      omega
    cases found : Trivia.piece? bytes with
    | some piece =>
      obtain ⟨first, rest, rfl, width, isPiece⟩ := Trivia.piece?_eq_some found
      rw [scanFrom_of_piece found width isPiece.ne_nil] at scanned
      obtain ⟨more, behind, last, rfl, scans, tail, noTrivia⟩ :=
        ih rest.length (shorter isPiece.ne_nil rfl) scanned settled noStray rfl
      refine ⟨first ++ more, behind, last, (List.append_assoc _ _ _).symm, .piece isPiece scans, ?_, noTrivia⟩
      rwa [List.length_append, ← Nat.add_assoc]
    | none =>
      cases front with
      | nil => exact ⟨[], bytes, newline, rfl, .done, scanned, found⟩
      | cons lexeme front =>
        obtain ⟨admitted, settled⟩ := settled
        obtain ⟨noStrayHead, noStray⟩ := List.forall_mem_cons.mp noStray
        obtain ⟨first, rest, rfl, same, spells, tail⟩ := exists_token scanned nonempty found admitted noStrayHead
        obtain ⟨more, behind, last, rfl, scans, tail, noTrivia⟩ :=
          ih rest.length (shorter spells.ne_nil rfl) tail settled noStray rfl
        refine ⟨first ++ more, behind, last, (List.append_assoc _ _ _).symm, ?_, ?_, noTrivia⟩
        · rw [same]
          exact .token spells scans
        · rwa [List.length_append, ← Nat.add_assoc]

end Lexeme

end EcmaFold
