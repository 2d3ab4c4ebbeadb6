import EcmaFold.Proofs.Lexer.Lines
import EcmaFold.Proofs.Lexer.WordBytes
import Mathlib.Data.List.Basic

/-!
How a text that is cut into lexemes ends. A line terminator at its end is a piece of its own, and so is a semicolon a
token, unless it belongs to a comment that begins on the same line.
-/

namespace EcmaFold

/-! The last byte of a chunk -/

/-- A literal ends with a quote. -/
theorem StringLiteral.exists_last {text value : Bytes} (found : read? text = some (value, text.length)) :
    ∃ before quote, text = before ++ [quote] ∧ (quote = 0x22 ∨ quote = 0x27) := by
  obtain ⟨quote, bytes, rfl, either⟩ := exists_quote found
  rw [read?, if_pos either] at found
  obtain ⟨⟨value, width⟩, inner, same⟩ := Option.map_eq_some_iff.mp found
  cases same
  obtain ⟨body, rest, rfl, width, -, -⟩ := bodyFrom_eq_some (isQuote either) inner
  obtain rfl : rest = [] := by
    simp only [List.length_append, List.length_cons] at width
    exact List.length_eq_zero_iff.mp (by omega)
  exact ⟨quote :: body, quote, rfl, either⟩

namespace Trivia

/-- A block comment ends with a slash. -/
theorem exists_last_of_blockRest? {body : Bytes} {newline : Bool} (closed : blockRest? body = some ⟨body.length, newline⟩) :
    ∃ before, body = before ++ [0x2F] := by
  induction body generalizing newline with
  | nil => cases closed
  | cons b rest ih =>
    by_cases closing : b = 0x2A ∧ rest.head? = some 0x2F
    · obtain ⟨rfl, next⟩ := closing
      obtain ⟨tail, rfl⟩ := List.head?_eq_some_iff.mp next
      rw [blockRest?_pair] at closed
      cases tail with
      | nil => exact ⟨[0x2A], rfl⟩
      | cons _ _ => cases closed
    · rw [blockRest?_cons closing] at closed
      obtain ⟨⟨width, breaks⟩, found, same⟩ := Option.map_eq_some_iff.mp closed
      obtain ⟨rfl, -⟩ : width = rest.length ∧ _ := by simpa using same
      obtain ⟨before, rfl⟩ := ih found
      exact ⟨b :: before, rfl⟩

/-- No line ends in a comment on one line. -/
theorem noFeed_of_lineWidth {body rest : Bytes} (ends : lineWidth (body ++ rest) = body.length) :
    ∀ b ∈ body, b ≠ 0x0A ∧ b ≠ 0x0D := by
  induction body with
  | nil => exact List.forall_mem_nil _
  | cons b body ih =>
    rw [List.cons_append, lineWidth] at ends
    split at ends
    · cases ends
    · rename_i inLine
      rw [atLineTerminator_cons] at inLine
      exact List.forall_mem_cons.mpr ⟨⟨fun feed => inLine (.inl feed), fun carriage => inLine (.inr (.inl carriage))⟩,
        ih (Nat.succ.inj ends)⟩

/-- A piece that ends with a line terminator or a semicolon is the line terminator, or a comment on one line. -/
theorem IsPiece.last {before rest : Bytes} {b : UInt8} {newline : Bool} (isPiece : IsPiece (before ++ [b]) rest newline)
    (separates : b = 0x0A ∨ b = 0x0D ∨ b = 0x3B) :
    before = [] ∧ b ≠ 0x3B ∨ b = 0x3B ∧ before ≠ [] ∧ 0x0A ∉ before := by
  have ascii : b < 0x80 := by rcases separates with rfl | rfl | rfl <;> decide
  have noSlash : b ≠ 0x2F := by rcases separates with rfl | rfl | rfl <;> decide
  have last {start : Bytes} {c : UInt8} (same : before ++ [b] = start ++ [c]) : before = start ∧ b = c := by
    obtain ⟨starts, ends⟩ := List.append_inj' same rfl
    exact ⟨starts, List.head_eq_of_cons_eq ends⟩
  generalize same : before ++ [b] = text at isPiece
  cases isPiece with
  | @blank c _ isBlank =>
    obtain ⟨rfl, rfl⟩ := @last [] c same
    exact .inl ⟨rfl, by rcases isBlank with rfl | rfl | rfl | rfl <;> decide⟩
  | @line c _ isLine =>
    obtain ⟨rfl, rfl⟩ := @last [] c same
    exact .inl ⟨rfl, by rcases isLine with rfl | rfl <;> decide⟩
  | @lineComment body _ ends =>
    rcases List.eq_nil_or_concat' body with rfl | ⟨inner, c, rfl⟩
    · exact absurd (@last [0x2F] 0x2F same).2 noSlash
    · obtain ⟨rfl, rfl⟩ := @last (0x2F :: 0x2F :: inner) c same
      have noFeed := noFeed_of_lineWidth ends
      obtain ⟨notFeed, notReturn⟩ := noFeed b (by simp)
      refine .inr ⟨separates.resolve_left notFeed |>.resolve_left notReturn, List.cons_ne_nil _ _, ?_⟩
      simp only [List.mem_cons, not_or]
      exact ⟨by decide, by decide, fun member => (noFeed 0x0A (by simp [member])).1 rfl⟩
  | @blockComment body _ _ closed =>
    obtain ⟨inner, rfl⟩ := exists_last_of_blockRest? (by simpa using closed [])
    exact absurd (@last (0x2F :: 0x2A :: inner) 0x2F same).2 noSlash
  | @wide first text _ _ wide found =>
    obtain ⟨c, encoded⟩ := exists_encode (by simpa using found [])
    have notAscii : ∀ a ∈ first :: text, 0x80 ≤ a :=
      List.forall_mem_cons.mpr ⟨UInt8.not_lt.mp wide, fun a member => (Utf8.continues_of_encode encoded a member).1⟩
    exact absurd ascii (UInt8.not_lt.mpr (notAscii b (by simp [← same])))

end Trivia

namespace Token

/-- A token that ends with a line terminator or a semicolon is the semicolon. -/
theorem Spells.last {t : Token} {before rest : Bytes} {b : UInt8} (spells : t.Spells (before ++ [b]) rest)
    (separates : b = 0x0A ∨ b = 0x0D ∨ b = 0x3B) : before = [] ∧ b = 0x3B ∧ t = .punct .semicolon := by
  have noWord : Bytes.isWordByte b = false := by rcases separates with rfl | rfl | rfl <;> decide
  generalize same : before ++ [b] = text at spells
  have outside (word : ∀ a ∈ text, Bytes.isWordByte a = true) : False := by
    rw [word b (by simp [← same])] at noWord
    cases noWord
  cases spells with
  | number clean => exact (outside (Number.read?_eq_some clean).1.isWordByte).elim
  | name spelled => exact (outside (Name.read?_eq_some spelled).1.isWordByte).elim
  | string found =>
    obtain ⟨inner, quote, rfl, isQuote⟩ := StringLiteral.exists_last (by simpa using found [])
    obtain rfl := List.head_eq_of_cons_eq (List.append_inj' same rfl).2
    rcases isQuote with rfl | rfl <;> simp at separates
  | @punct p _ _ =>
    have ends : p.spelling.getLast? = some b := by rw [← same, List.getLast?_concat]
    have table : ∀ p ∈ Punct.all, p.spelling.getLast? ≠ some 0x0A ∧ p.spelling.getLast? ≠ some 0x0D ∧
        (p.spelling.getLast? = some 0x3B → p = .semicolon) := by decide +kernel
    obtain ⟨noFeed, noReturn, only⟩ := table p p.mem_all
    rcases separates with rfl | rfl | rfl
    · exact absurd ends noFeed
    · exact absurd ends noReturn
    · obtain rfl := only ends
      obtain ⟨rfl, -⟩ := List.append_inj' (show before ++ _ = [] ++ _ from same) rfl
      exact ⟨rfl, rfl, rfl⟩

end Token

/-! The last chunk of a text -/

namespace Lexeme

theorem Scans.eq_nil {offset : Nat} {newline last : Bool} {rest : Bytes} {lexemes : List Lexeme}
    (scans : Scans offset newline [] rest lexemes last) : lexemes = [] := by
  generalize nothing : ([] : Bytes) = text at scans
  cases scans with
  | done => rfl
  | piece isPiece => exact absurd (List.append_eq_nil_iff.mp nothing.symm).1 isPiece.ne_nil
  | token spells => exact absurd (List.append_eq_nil_iff.mp nothing.symm).1 spells.ne_nil

/-- A text that is cut into lexemes ends with a piece of trivia or with its last lexeme. -/
theorem Scans.exists_last {offset : Nat} {newline last : Bool} {text rest : Bytes} {lexemes : List Lexeme}
    (scans : Scans offset newline text rest lexemes last) (nonempty : text ≠ []) :
    ∃ front chunk flag, text = front ++ chunk ∧ chunk ≠ [] ∧
      ((∃ broken, Trivia.IsPiece chunk rest broken) ∧ Scans offset newline front (chunk ++ rest) lexemes flag ∨
        ∃ before lexeme, lexeme.token.Spells chunk rest ∧ lexemes = before ++ [lexeme] ∧
          Scans offset newline front (chunk ++ rest) before flag) := by
  induction scans with
  | done => exact absurd rfl nonempty
  | @piece offset newline broken last first more rest lexemes isPiece tail ih =>
    by_cases only : more = []
    · subst only
      obtain rfl := tail.eq_nil
      exact ⟨[], first, newline, List.append_nil _, isPiece.ne_nil, .inl ⟨⟨broken, isPiece⟩, .done⟩⟩
    · obtain ⟨front, chunk, flag, rfl, nonempty, ends⟩ := ih only
      refine ⟨first ++ front, chunk, flag, (List.append_assoc _ _ _).symm, nonempty, ?_⟩
      rw [List.append_assoc] at isPiece
      rcases ends with ⟨isLast, front⟩ | ⟨before, lexeme, spells, same, front⟩
      · exact .inl ⟨isLast, .piece isPiece front⟩
      · exact .inr ⟨before, lexeme, spells, same, .piece isPiece front⟩
  | @token offset newline last t first more rest lexemes spells tail ih =>
    by_cases only : more = []
    · subst only
      obtain rfl := tail.eq_nil
      exact ⟨[], first, newline, List.append_nil _, spells.ne_nil, .inr ⟨[], _, spells, rfl, .done⟩⟩
    · obtain ⟨front, chunk, flag, rfl, nonempty, ends⟩ := ih only
      refine ⟨first ++ front, chunk, flag, (List.append_assoc _ _ _).symm, nonempty, ?_⟩
      rw [List.append_assoc] at spells
      rcases ends with ⟨isLast, front⟩ | ⟨before, lexeme, spellsLast, rfl, front⟩
      · exact .inl ⟨isLast, .token spells front⟩
      · exact .inr ⟨_ :: before, lexeme, spellsLast, rfl, .token spells front⟩

/-- A line terminator at the end can be taken off. -/
theorem Scans.of_line {offset : Nat} {newline last : Bool} {text rest : Bytes} {lexemes : List Lexeme} {b : UInt8}
    (scans : Scans offset newline (text ++ [b]) rest lexemes last) (isLine : b = 0x0A ∨ b = 0x0D) :
    ∃ flag, Scans offset newline text (b :: rest) lexemes flag := by
  obtain ⟨front, chunk, flag, split, nonempty, ends⟩ := scans.exists_last (by simp)
  obtain ⟨inner, c, rfl⟩ := (List.eq_nil_or_concat' chunk).resolve_left nonempty
  rw [← List.append_assoc] at split
  obtain ⟨rfl, ending⟩ := List.append_inj' split rfl
  obtain rfl := List.head_eq_of_cons_eq ending
  have noSemicolon : b ≠ 0x3B := by rcases isLine with rfl | rfl <;> decide
  have separates : b = 0x0A ∨ b = 0x0D ∨ b = 0x3B := isLine.imp_right .inl
  rcases ends with ⟨⟨broken, isPiece⟩, scans⟩ | ⟨before, lexeme, spells, -, -⟩
  · obtain ⟨rfl, -⟩ := (isPiece.last separates).resolve_right fun comment => noSemicolon comment.1
    rw [List.append_nil]
    exact ⟨flag, scans⟩
  · exact absurd (spells.last separates).2.1 noSemicolon

/-- A semicolon on a line of its own is the last lexeme, and the lexemes before it are those of the lines before. -/
theorem Scans.of_semicolon {offset : Nat} {newline last : Bool} {text rest : Bytes} {lexemes : List Lexeme}
    (scans : Scans offset newline (text ++ [0x0A] ++ [0x3B]) rest lexemes last) :
    ∃ before lexeme flag, lexemes = before ++ [lexeme] ∧ lexeme.token = .punct .semicolon ∧
      Scans offset newline text (0x0A :: 0x3B :: rest) before flag := by
  obtain ⟨front, chunk, flag, split, nonempty, ends⟩ := scans.exists_last (by simp)
  obtain ⟨inner, c, rfl⟩ := (List.eq_nil_or_concat' chunk).resolve_left nonempty
  rw [← List.append_assoc] at split
  obtain ⟨line, ending⟩ := List.append_inj' split rfl
  obtain rfl := List.head_eq_of_cons_eq ending
  rcases ends with ⟨⟨broken, isPiece⟩, -⟩ | ⟨before, lexeme, spells, rfl, scans⟩
  · -- A comment would go over the line feed.
    rcases isPiece.last (.inr (.inr rfl)) with ⟨-, noSemicolon⟩ | ⟨-, goesOn, noFeed⟩
    · exact absurd rfl noSemicolon
    · obtain ⟨start, c, rfl⟩ := (List.eq_nil_or_concat' inner).resolve_left goesOn
      rw [← List.append_assoc] at line
      obtain rfl := List.head_eq_of_cons_eq (List.append_inj' line rfl).2
      simp at noFeed
  · obtain ⟨rfl, -, isSemicolon⟩ := spells.last (.inr (.inr rfl))
    rw [List.append_nil] at line
    rw [← line] at scans
    obtain ⟨flag', scans⟩ := scans.of_line (.inl rfl)
    exact ⟨before, lexeme, flag', rfl, isSemicolon, scans⟩

end Lexeme

end EcmaFold
