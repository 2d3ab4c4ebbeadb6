import EcmaFold.Lexer.Scanner
import EcmaFold.Lexeme
import EcmaFold.Proofs.Text.Utf8

/-!
The token sequence of a source. A source is one when passing over trivia and taking what the first matching
rule finds, again and again, reaches its end. The lexemes that the grammar reads are this sequence, each token
with the fact whether a line ends before it, and the end of the source behind them.
-/

namespace EcmaFold

/-- A token without its place, with the fact whether a line ends before it. -/
abbrev Mark := Token × Bool

namespace Lexeme

def mark (lexeme : Lexeme) : Mark := (lexeme.token, lexeme.newline)

/-- The lexemes of the bytes without their places. -/
def marks (newline : Bool) (bytes : Bytes) : List Mark := (scanFrom 0 0 newline bytes).map mark

@[simp] theorem marks_nil (newline : Bool) : marks newline [] = [(.ending, newline)] := rfl

/-- Bytes that belong to what was read last are passed over, and where the bytes stand makes no
difference. -/
theorem scanFrom_marks (pending offset : Nat) (newline : Bool) (bytes : Bytes) :
    (scanFrom pending offset newline bytes).map mark = marks newline (bytes.drop pending) := by
  induction bytes generalizing pending offset newline with
  | nil => cases pending <;> rfl
  | cons b rest ih =>
    cases pending with
    | succ pending => exact ih pending (offset + 1) newline
    | zero =>
      rw [List.drop_zero, marks, scanFrom, scanFrom]
      split
      · rw [ih, ih]
      · simp only [List.map_cons, ih]
        rfl

theorem marks_of_piece {newline : Bool} {b : UInt8} {rest : Bytes} {piece : Gap}
    (found : Trivia.piece? (b :: rest) = some piece) :
    marks newline (b :: rest) = marks (newline || piece.newline) (rest.drop (piece.width - 1)) := by
  rw [marks, scanFrom, found]
  exact scanFrom_marks _ _ _ _

theorem marks_of_token {newline : Bool} {b : UInt8} {rest : Bytes}
    (none : Trivia.piece? (b :: rest) = none) :
    marks newline (b :: rest) = ((Token.read (b :: rest)).1, newline) ::
      marks false (rest.drop ((Token.read (b :: rest)).2 - 1)) := by
  rw [marks, scanFrom, none]
  exact congrArg _ (scanFrom_marks _ _ _ _)

/-- Trivia is passed over as a whole. -/
theorem scanFrom_gap (pending offset : Nat) (newline : Bool) (bytes : Bytes) :
    (scanFrom pending offset newline bytes).map mark =
      marks (newline || (Trivia.gapFrom pending bytes).newline)
        (bytes.drop (Trivia.gapFrom pending bytes).width) := by
  induction bytes generalizing pending offset newline with
  | nil => cases pending <;> simp [scanFrom, Trivia.gapFrom, mark]
  | cons b rest ih =>
    cases pending with
    | succ pending => simpa [scanFrom, Trivia.gapFrom] using ih pending (offset + 1) newline
    | zero =>
      rw [scanFrom_marks, List.drop_zero, Trivia.gapFrom]
      split
      · simp
      · rename_i piece found
        rw [marks_of_piece found, ← scanFrom_marks _ 0, ih]
        simp [Bool.or_assoc]

theorem marks_gap (newline : Bool) (bytes : Bytes) :
    marks newline bytes =
      marks (newline || (Trivia.gap bytes).newline) (bytes.drop (Trivia.gap bytes).width) := by
  rw [Trivia.gap, ← scanFrom_gap 0 0, scanFrom_marks, List.drop_zero]

/-- No trivia is left behind trivia. -/
theorem piece?_behind_gap (pending : Nat) (bytes : Bytes) :
    Trivia.piece? (bytes.drop (Trivia.gapFrom pending bytes).width) = none := by
  induction bytes generalizing pending with
  | nil => cases pending <;> rfl
  | cons b rest ih =>
    cases pending with
    | succ pending => simpa [Trivia.gapFrom] using ih pending
    | zero =>
      cases found : Trivia.piece? (b :: rest) with
      | none => simp [Trivia.gapFrom, found]
      | some piece => simpa [Trivia.gapFrom, found] using ih (piece.width - 1)

end Lexeme

namespace Number

/-- What is read as a number is what the matcher finds in the window, and no name goes on behind it. -/
theorem readBy?_eq_some {find? : Bytes → Option Nat} {bytes : Bytes} {number : Number}
    (found : readBy? find? bytes = some number) :
    (∃ width, find? (window bytes) = some width ∧ number.raw = (window bytes).take width) ∧
      Name.goesOn (bytes.drop number.raw.length) = false ∧ number = ⟨number.raw, valueOf number.raw⟩ := by
  unfold readBy? at found
  dsimp only at found
  split at found
  · cases found
  · rename_i width matched
    split at found
    · cases found
    · rename_i stops
      cases found
      exact ⟨⟨width, matched, rfl⟩, eq_false_of_ne_true stops, rfl⟩

theorem read?_value {bytes : Bytes} {number : Number} (found : read? bytes = some number) :
    number = ⟨number.raw, valueOf number.raw⟩ :=
  (readBy?_eq_some found).2.2

theorem find?_eq_some {text : Bytes} {found : Nat} :
    find? text = some found ↔ width text = found ∧ found ≠ 0 ∧ found ≤ matcherReach := by
  unfold find?
  dsimp only
  split
  · rename_i refused
    refine iff_of_false (by simp) ?_
    rintro ⟨rfl, positive, short⟩
    omega
  · rename_i accepted
    rw [Option.some.injEq]
    omega

theorem raw_ne_nil {bytes : Bytes} {number : Number} (found : read? bytes = some number) : number.raw ≠ [] := by
  obtain ⟨⟨width, matched, raw⟩, -⟩ := readBy?_eq_some found
  obtain ⟨rfl, positive, -⟩ := find?_eq_some.mp matched
  intro empty
  rcases List.take_eq_nil_iff.mp (raw.symm.trans empty) with zero | nothing
  · exact positive zero
  · rw [nothing] at positive
    exact positive rfl

end Number

namespace Token

theorem punct_spelling_pos (p : Punct) : 0 < p.spelling.length := by
  cases p <;> decide

theorem exists_strayAt (bytes : Bytes) : ∃ text width, strayAt bytes = (stray text, width) := by
  unfold strayAt
  split
  · exact ⟨_, _, rfl⟩
  · exact ⟨_, _, rfl⟩

/-- Every token takes room. -/
theorem read_width_pos (b : UInt8) (rest : Bytes) : 0 < (read (b :: rest)).2 := by
  unfold read
  split
  · rename_i value found
    exact List.length_pos_iff.mpr (Number.raw_ne_nil found)
  · split
    · rename_i value width found
      simp only [StringLiteral.read?] at found
      split at found
      · simp only [Option.map_eq_some_iff] at found
        obtain ⟨⟨_, _⟩, _, same⟩ := found
        cases same
        exact Nat.succ_pos _
      · cases found
    · split
      · rename_i spelling found
        simp only [Name.read?] at found
        split at found
        · cases found
        · cases found
          simp only [List.length_take, List.length_cons]
          omega
      · split
        · exact punct_spelling_pos _
        · unfold strayAt
          split
          · rename_i found
            exact Utf8.decode?_width_pos found
          · exact Nat.one_pos

end Token

deriving instance DecidableEq for Scanner

namespace Scanner

/-- What a lexical rule finds: the spelling of a number or a name, the decoded value of a string, a
punctuator. -/
inductive Item where
  | number (spelling : Bytes)
  | string (value : Bytes)
  | name (spelling : Bytes)
  | punct (p : Punct)
  deriving DecidableEq, Repr

/-- The token that the grammar sees. A name is a keyword if it is reserved. -/
def Item.token : Item → Token
  | number spelling => .number ⟨spelling, Number.valueOf spelling⟩
  | string value => .string value
  | name spelling => .ofName spelling
  | punct p => .punct p

/-- The longest punctuator. -/
def longestPunct? : Scanner → Option (Punct × Scanner) :=
  rule fun bytes => (Punct.longest? bytes).map fun p => (p, p.spelling.length)

/-- What the first matching rule finds: a number, a string, a name, the longest punctuator. -/
def item? (s : Scanner) : Option (Item × Scanner) :=
  (s.number?.map fun (number, after) => (.number number.raw, after)) <|>
    (s.stringLiteral?.map fun (value, after) => (.string value, after)) <|>
    (s.identifierName?.map fun (name, after) => (.name name, after)) <|>
    (s.longestPunct?.map fun (p, after) => (.punct p, after))

/-- The items from the cursor to the end of the source, each with the fact whether a line ends before it. The
rules have to match all the way: where none does, there is no such sequence. -/
inductive Items : Scanner → List (Item × Bool) → Prop where
  | done {s : Scanner} (ended : s.atEnd = true) : Items s []
  | next {s after : Scanner} {item : Item} {rest : List (Item × Bool)} (going : s.atEnd = false)
      (found : s.item? = some (item, after)) (more : Items after rest) :
      Items s ((item, s.newlineAhead) :: rest)

/-- The mark of an item. -/
def Item.mark (item : Item × Bool) : Mark := (item.1.token, item.2)

theorem rest_skip (s : Scanner) : s.skip.rest = s.rest.drop (Trivia.gap s.rest).width := by
  simp [skip, advance, moveTo, rest]

theorem rest_advance (s : Scanner) (width : Nat) : (s.advance width).rest = s.rest.drop width := by
  simp [advance, moveTo, rest]

theorem atEnd_iff (s : Scanner) : s.atEnd = true ↔ s.skip.rest = [] := by
  rw [atEnd, decide_eq_true_iff, rest, List.drop_eq_nil_iff]
  rfl

/-- A rule finds what is read behind the trivia. -/
theorem item?_read (s : Scanner) :
    (∃ item width, s.item? = some (item, s.skip.advance width) ∧
      Token.read s.skip.rest = (item.token, width)) ∨
    s.item? = none ∧ ∃ text width, Token.read s.skip.rest = (.stray text, width) := by
  cases number : Number.read? s.skip.rest with
  | some value =>
    refine .inl ⟨.number value.raw, value.raw.length, ?_, ?_⟩
    · simp [item?, number?_eq, rule, number]
    · rw [Token.read, number, Item.token, ← Number.read?_value number]
  | none =>
    cases string : StringLiteral.read? s.skip.rest with
    | some value =>
      refine .inl ⟨.string value.1, value.2, ?_, ?_⟩
      · simp [item?, number?_eq, stringLiteral?, rule, number, string]
      · rw [Token.read, number, string, Item.token]
    | none =>
      cases name : Name.read? s.skip.rest with
      | some spelling =>
        refine .inl ⟨.name spelling, spelling.length, ?_, ?_⟩
        · simp [item?, number?_eq, stringLiteral?, identifierName?, rule, number, string, name]
        · rw [Token.read, number, string, name, Item.token]
      | none =>
        cases punct : Punct.longest? s.skip.rest with
        | some p =>
          refine .inl ⟨.punct p, p.spelling.length, ?_, ?_⟩
          · simp [item?, number?_eq, stringLiteral?, identifierName?, longestPunct?, rule, number, string, name,
              punct]
          · rw [Token.read, number, string, name, punct, Item.token]
        | none =>
          refine .inr ⟨?_, ?_⟩
          · simp [item?, number?_eq, stringLiteral?, identifierName?, longestPunct?, rule, number, string, name,
              punct]
          · rw [Token.read, number, string, name, punct]
            exact Token.exists_strayAt s.skip.rest

/-- The lexemes at a cursor: only the end of the source, or what is read behind the trivia and the lexemes
behind that. -/
theorem marks_step (s : Scanner) :
    s.atEnd = true ∧ Lexeme.marks false s.rest = [(.ending, s.newlineAhead)] ∨
    s.atEnd = false ∧ Lexeme.marks false s.rest = ((Token.read s.skip.rest).1, s.newlineAhead) ::
      Lexeme.marks false (s.skip.advance (Token.read s.skip.rest).2).rest := by
  have behind : Lexeme.marks false s.rest = Lexeme.marks s.newlineAhead s.skip.rest := by
    rw [rest_skip, Lexeme.marks_gap, Bool.false_or]
    rfl
  have noTrivia : Trivia.piece? s.skip.rest = none := by
    rw [rest_skip]
    exact Lexeme.piece?_behind_gap 0 s.rest
  rw [behind, rest_advance]
  cases left : s.skip.rest with
  | nil => exact .inl ⟨(atEnd_iff s).mpr left, rfl⟩
  | cons b tail =>
    have going : s.atEnd = false := by
      rw [← Bool.not_eq_true, atEnd_iff, left]
      exact List.cons_ne_nil b tail
    refine .inr ⟨going, ?_⟩
    rw [left] at noTrivia
    obtain ⟨width, same⟩ := Nat.exists_eq_add_of_lt (Token.read_width_pos b tail)
    rw [Lexeme.marks_of_token noTrivia, same]
    simp

theorem Items.marks {s : Scanner} {items : List (Item × Bool)} (sequence : Items s items) :
    ∃ newline, Lexeme.marks false s.rest = items.map Item.mark ++ [(.ending, newline)] := by
  induction sequence with
  | @done s ended =>
    rcases s.marks_step with ⟨_, same⟩ | ⟨going, _⟩
    · exact ⟨_, same⟩
    · rw [ended] at going
      cases going
  | @next s after item rest going found _ ih =>
    rcases s.marks_step with ⟨ended, _⟩ | ⟨_, same⟩
    · rw [going] at ended
      cases ended
    · rcases s.item?_read with ⟨item', width, found', read⟩ | ⟨none, _⟩
      · rw [found'] at found
        cases found
        obtain ⟨newline, tail⟩ := ih
        refine ⟨newline, ?_⟩
        rw [same, read, tail]
        rfl
      · rw [none] at found
        cases found

/-- A source in whose lexemes nothing is stray is a sequence of items. -/
theorem exists_items (s : Scanner)
    (clean : ∀ mark ∈ Lexeme.marks false s.rest, ∀ text, mark.1 ≠ .stray text) : ∃ items, Items s items := by
  generalize length : (Lexeme.marks false s.rest).length = n
  induction n generalizing s with
  | zero => rcases s.marks_step with ⟨_, same⟩ | ⟨_, same⟩ <;> simp [same] at length
  | succ n ih =>
    rcases s.marks_step with ⟨ended, _⟩ | ⟨going, same⟩
    · exact ⟨[], .done ended⟩
    · rw [same] at clean length
      rcases s.item?_read with ⟨item, width, found, read⟩ | ⟨_, text, width, read⟩
      · rw [read] at clean length
        obtain ⟨rest, more⟩ := ih (s.skip.advance width)
          (fun mark member => clean mark (List.mem_cons_of_mem _ member)) (by simpa using length)
        exact ⟨_, .next going found more⟩
      · exact absurd (congrArg Prod.fst read) (clean _ List.mem_cons_self text)

end Scanner

end EcmaFold
