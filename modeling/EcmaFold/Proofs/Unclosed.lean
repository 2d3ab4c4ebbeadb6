import EcmaFold.Proofs.Composition
import EcmaFold.Proofs.Lexer.WordBytes
import EcmaFold.Proofs.Tree.Brackets
import EcmaFold.Repl.Unclosed

/-!
Whether a dialogue asks for more although a program is complete. It does for some: its rule of lines knows line feeds
only, so that a line comment that ends in another way hides what follows. Main statement: it does not when the line
comments of the program end with line feeds and no line end of two bytes is escaped in its strings.
-/

namespace EcmaFold

open Bytes Trivia

namespace Unclosed

/-- How many brackets a text of code opens and does not close. -/
def weight (text : Bytes) : Int := (text.map bracket).sum

@[simp] theorem weight_nil : weight [] = 0 := rfl

@[simp] theorem weight_cons (b : UInt8) (text : Bytes) : weight (b :: text) = bracket b + weight text := by
  simp [weight]

/-- The bytes are at an end, at a line feed, or at a carriage return with one. -/
def AtFeed (rest : Bytes) : Prop := rest = [] ∨ rest.head? = some 0x0A ∨ rest.take 2 = [0x0D, 0x0A]

instance (rest : Bytes) : Decidable (AtFeed rest) := inferInstanceAs (Decidable (_ ∨ _))

/-- A line end of two bytes is escaped in the text. -/
def EscapesPair (text : Bytes) : Prop := [0x5C, 0x0D, 0x0A] <:+: text

instance (text : Bytes) : Decidable (EscapesPair text) := inferInstanceAs (Decidable (_ <:+: _))

/-- If a line comment comes first, line feeds show where it is over, and if a string comes first, it escapes no line end
of two bytes. -/
def FeedsHere (bytes : Bytes) : Prop :=
  match piece? bytes with
  | some piece => [0x2F, 0x2F] <+: bytes → AtFeed (bytes.drop piece.width)
  | none => ∀ literal ∈ StringLiteral.read? bytes, ¬ EscapesPair (bytes.take literal.2)

instance (bytes : Bytes) : Decidable (FeedsHere bytes) := by
  unfold FeedsHere
  split <;> infer_instance

/-- The room of the piece of trivia or the token that comes first. -/
def chunkWidth (bytes : Bytes) : Nat :=
  match piece? bytes with
  | some piece => piece.width
  | none => (Token.read bytes).2

/-- Line feeds show where the line comments of the bytes are over, and no line end of two bytes is escaped in their
strings. The first `pending` bytes belong to what was read last. -/
def FeedsFrom : (pending : Nat) → Bytes → Prop
  | _, [] => True
  | pending + 1, _ :: rest => FeedsFrom pending rest
  | 0, b :: rest => FeedsHere (b :: rest) ∧ FeedsFrom (chunkWidth (b :: rest) - 1) rest

instance decidableFeedsFrom : (pending : Nat) → (bytes : Bytes) → Decidable (FeedsFrom pending bytes)
  | 0, [] | _ + 1, [] => inferInstanceAs (Decidable True)
  | pending + 1, _ :: rest => decidableFeedsFrom pending rest
  | 0, b :: rest =>
    have := decidableFeedsFrom (chunkWidth (b :: rest) - 1) rest
    inferInstanceAs (Decidable (_ ∧ _))

/-- Line feeds show where the line comments of a source and the escaped line ends in its strings are over. -/
def FeedsLines (source : Bytes) : Prop := FeedsFrom 0 source

instance (source : Bytes) : Decidable (FeedsLines source) := decidableFeedsFrom 0 source

theorem feedsFrom_pending (pending : Nat) (bytes : Bytes) :
    FeedsFrom pending bytes ↔ FeedsLines (bytes.drop pending) := by
  induction pending generalizing bytes with
  | zero => rfl
  | succ pending ih =>
    cases bytes with
    | nil => rfl
    | cons b rest => exact ih rest

/-- What comes first is asked, and then what is behind it. -/
theorem FeedsLines.split {text rest : Bytes} (feeds : FeedsLines (text ++ rest)) (nonempty : text ≠ [])
    (width : chunkWidth (text ++ rest) = text.length) : FeedsHere (text ++ rest) ∧ FeedsLines rest := by
  obtain _ | ⟨b, text⟩ := text
  · exact absurd rfl nonempty
  rw [List.cons_append] at feeds width ⊢
  obtain ⟨here, behind⟩ : FeedsHere (b :: (text ++ rest)) ∧
    FeedsFrom (chunkWidth (b :: (text ++ rest)) - 1) (text ++ rest) := feeds
  rw [width, List.length_cons, Nat.add_sub_cancel, feedsFrom_pending, List.drop_left] at behind
  exact ⟨here, behind⟩

/-! Code, comments and strings -/

/-- Neither a quote nor a slash. -/
def isPlain (b : UInt8) : Bool := !isQuote b && b != 0x2F

/-- Code without quotes and slashes. -/
theorem scan_plain {text : Bytes} (plain : text.all isPlain = true) (depth : Int) (rest : Bytes) :
    scan .code depth (text ++ rest) = scan .code (depth + weight text) rest := by
  induction text generalizing depth with
  | nil => rw [weight_nil, Int.add_zero, List.nil_append]
  | cons b text ih =>
    rw [List.all_cons, Bool.and_eq_true, isPlain, Bool.and_eq_true, Bool.not_eq_true'] at plain
    obtain ⟨⟨noQuote, noSlash⟩, others⟩ := plain
    rw [List.cons_append, scan_code depth noQuote fun isSlash => absurd isSlash (bne_iff_ne.mp noSlash), ih others,
      weight_cons, Int.add_assoc]

/-- Names, numbers and wide blanks hold no brackets. -/
theorem scan_word {text : Bytes} (word : ∀ b ∈ text, isWordByte b = true) (depth : Int) (rest : Bytes) :
    scan .code depth (text ++ rest) = scan .code depth rest := by
  have table : ∀ b : UInt8, isWordByte b = true → isPlain b = true ∧ bracket b = 0 := by
    refine forall_byte ?_
    decide +kernel
  have weightless : weight text = 0 := by
    induction text with
    | nil => rfl
    | cons b text ih =>
      obtain ⟨isWord, others⟩ := List.forall_mem_cons.mp word
      rw [weight_cons, (table b isWord).2, ih others, Int.add_zero]
  rw [scan_plain (List.all_eq_true.mpr fun b member => (table b (word b member)).1), weightless, Int.add_zero]

/-- Where a line feed ends a line comment, the rest is read as code. -/
theorem scan_atFeed {rest : Bytes} (atFeed : AtFeed rest) (depth : Int) :
    scan .lineComment depth rest = scan .code depth rest := by
  rcases atFeed with rfl | feed | pair
  · rfl
  · obtain ⟨tail, rfl⟩ := List.head?_eq_some_iff.mp feed
    exact congrArg (scan .code · tail) (Int.add_zero depth).symm
  · obtain ⟨tail, rfl⟩ : ∃ tail, rest = 0x0D :: 0x0A :: tail := ⟨rest.drop 2, by
      conv_lhs => rw [← List.take_append_drop 2 rest, pair]
      rfl⟩
    exact congrArg (scan .code · tail) (by simp [bracket])

theorem scan_lineComment {comment : Bytes} (ends : AtFeed (comment.drop (lineWidth comment))) (depth : Int) :
    scan .lineComment depth comment = scan .code depth (comment.drop (lineWidth comment)) := by
  induction comment with
  | nil => rfl
  | cons b rest ih =>
    rw [lineWidth] at ends ⊢
    split
    · rename_i terminator
      rw [if_pos terminator] at ends
      exact scan_atFeed ends depth
    · rename_i inLine
      rw [if_neg inLine, List.drop_succ_cons] at ends
      have noFeed : b ≠ 0x0A := by
        rintro rfl
        exact inLine rfl
      rw [List.drop_succ_cons, ← ih ends, scan, if_neg noFeed]

theorem scan_blockComment {bytes : Bytes} {gap : Gap} (closed : blockRest? bytes = some gap) (depth : Int) :
    scan .blockComment depth bytes = scan .code depth (bytes.drop gap.width) := by
  induction bytes generalizing gap with
  | nil => cases closed
  | cons b rest ih =>
    by_cases closing : b = 0x2A ∧ rest.head? = some 0x2F
    · obtain ⟨rfl, next⟩ := closing
      obtain ⟨tail, rfl⟩ := List.head?_eq_some_iff.mp next
      rw [blockRest?_pair] at closed
      cases closed
      rfl
    · rw [blockRest?_cons closing] at closed
      obtain ⟨inner, inside, rfl⟩ := Option.map_eq_some_iff.mp closed
      rw [List.drop_succ_cons, ← ih inside, scan]
      rintro tail rfl rfl
      exact closing ⟨rfl, rfl⟩

/-- What belongs to an escape behind its first byte are digits and bytes of a wide character, unless a line end of two
bytes is escaped. -/
theorem escape_tail {b : UInt8} {rest decoded : Bytes} {width : Nat}
    (found : StringLiteral.escape? (b :: rest) = some (decoded, width)) (noPair : b = 0x0D → rest.head? ≠ some 0x0A) :
    ∀ x ∈ rest.take (width - 1), isWordByte x = true := by
  rcases StringLiteral.escape?_cases found with ⟨count, code⟩ | rfl | ends | ⟨c, char⟩
  · rw [StringLiteral.codeEscape?_width code, Nat.add_sub_cancel]
    unfold StringLiteral.codeEscape? at code
    simp only at code
    split at code
    · cases code
    · obtain ⟨_, hex, -⟩ := Option.map_eq_some_iff.mp code
      unfold StringLiteral.hexCode? at hex
      split at hex
      · rename_i all
        exact fun x member => isWordByte_of_hexDigit (List.all_eq_true.mp all x member)
      · cases hex
  · exact List.forall_mem_nil _
  · rw [lineTerminator?_cons] at ends
    split at ends
    · cases ends
      exact List.forall_mem_nil _
    split at ends
    · rename_i isReturn
      rw [if_neg (noPair isReturn)] at ends
      cases ends
      exact List.forall_mem_nil _
    split at ends
    · rename_i wide
      cases ends
      rcases wide.2 with same | same <;> (rw [same]; exact List.all_eq_true.mp (by decide))
    · cases ends
  · obtain ⟨tail, same, rfl⟩ := Utf8.decode?_eq_some char
    cases encoded : Utf8.encode c with
    | nil =>
      have positive := Utf8.encode_length_pos c
      rw [encoded] at positive
      cases positive
    | cons first more =>
      rw [encoded] at same
      obtain rfl : rest = more ++ tail := (List.cons.inj same).2
      rw [List.length_cons, Nat.add_sub_cancel, List.take_left]
      exact fun x member => isWordByte_of_wide (Utf8.wide_of_encode encoded x member)

/-- Digits and wide characters are passed over in a string. -/
theorem scan_inString {quote : UInt8} (isQuote : quote = 0x22 ∨ quote = 0x27) {text : Bytes}
    (word : ∀ b ∈ text, isWordByte b = true) (depth : Int) (rest : Bytes) :
    scan (.string quote) depth (text ++ rest) = scan (.string quote) depth rest := by
  have table : ∀ b : UInt8, isWordByte b = true → b ≠ 0x22 ∧ b ≠ 0x27 ∧ b ≠ 0x0A ∧ b ≠ 0x5C := by
    refine forall_byte ?_
    decide +kernel
  induction text with
  | nil => rfl
  | cons b text ih =>
    obtain ⟨isWord, others⟩ := List.forall_mem_cons.mp word
    obtain ⟨noDouble, noSingle, noFeed, noSlash⟩ := table b isWord
    rw [List.cons_append, scan, if_neg, ih others]
    · rcases isQuote with rfl | rfl <;> simp [noDouble, noSingle, noFeed]
    · rintro next tail rfl
      exact fun _ => noSlash rfl

/-- An escape is passed over as a whole. -/
theorem scan_escape {quote : UInt8} (isQuote : quote = 0x22 ∨ quote = 0x27) (depth : Int) {rest decoded : Bytes}
    {taken : Nat} (escaped : StringLiteral.escape? rest = some (decoded, taken)) (noPair : ¬ [0x0D, 0x0A] <+: rest) :
    scan (.string quote) depth (0x5C :: rest) = scan (.string quote) depth (rest.drop taken) := by
  obtain ⟨k, rfl⟩ := Nat.exists_eq_add_one_of_ne_zero (Nat.ne_of_gt (StringLiteral.escape?_pos escaped))
  cases rest with
  | nil => cases escaped
  | cons b rest =>
    have word := escape_tail escaped fun isReturn feed => by
      obtain ⟨tail, rfl⟩ := List.head?_eq_some_iff.mp feed
      exact noPair ⟨tail, by rw [isReturn]; rfl⟩
    have passed := scan_inString isQuote word depth (rest.drop k)
    rw [Nat.add_sub_cancel, List.take_append_drop] at passed
    rw [List.drop_succ_cons, ← passed, scan]

/-- What is left of a literal behind an escape. -/
theorem bodyFrom_behind {quote : UInt8} (isQuote : quote = 0x22 ∨ quote = 0x27) {taken more : Nat} {rest value : Bytes}
    (found : StringLiteral.bodyFrom quote taken rest = some (value, more)) : taken ≤ rest.length ∧ taken < more ∧
      ∃ value' left, StringLiteral.bodyFrom quote 0 (rest.drop taken) = some (value', left) ∧ more = left + taken := by
  obtain ⟨body, behind, split, length, fits, -⟩ := StringLiteral.bodyFrom_eq_some (StringLiteral.isQuote isQuote) found
  have enough : taken ≤ rest.length := by
    rw [split, List.length_append]
    omega
  have skipped := StringLiteral.bodyFrom_pending quote (rest.take taken) (rest.drop taken)
  rw [List.length_take_of_le enough, List.take_append_drop, found] at skipped
  obtain ⟨⟨value', left⟩, inside, same⟩ := Option.map_eq_some_iff.mp skipped.symm
  cases same
  exact ⟨enough, by omega, value', left, inside, rfl⟩

/-- The rest of a literal is passed over up to its closing quote. -/
theorem scan_body {quote : UInt8} (isQuote : quote = 0x22 ∨ quote = 0x27) (depth : Int) {bytes value : Bytes}
    {width : Nat} (found : StringLiteral.bodyFrom quote 0 bytes = some (value, width))
    (noPair : ¬ EscapesPair (bytes.take width)) :
    scan (.string quote) depth bytes = scan .code depth (bytes.drop width) := by
  generalize length : bytes.length = n
  induction n using Nat.strongRecOn generalizing bytes value width with
  | _ n ih =>
    obtain _ | ⟨b, rest⟩ := bytes
    · cases found
    rw [List.length_cons] at length
    obtain ⟨inLine, begins⟩ := StringLiteral.bodyFrom_cases found
    have noFeed : b ≠ 0x0A := by
      rintro rfl
      cases inLine
    rcases begins with ⟨rfl, rfl, rfl⟩ | ⟨-, rfl, decoded, taken, _, more, escaped, inside, rfl, rfl⟩ |
      ⟨noQuote, noSlash, _, more, inside, rfl, rfl⟩
    · rw [scan, if_pos (.inl rfl), List.drop_succ_cons, List.drop_zero]
      rintro next tail rfl
      rcases isQuote with h | h <;> cases h
    · obtain ⟨enough, fewer, _, left, behind, rfl⟩ := bodyFrom_behind isQuote inside
      have positive := StringLiteral.escape?_pos escaped
      have here : ¬ [0x0D, 0x0A] <+: rest := by
        rintro ⟨tail, rfl⟩
        have fits : 3 ≤ left + taken + 1 := by omega
        exact noPair (List.prefix_take_iff.mpr ⟨⟨tail, rfl⟩, fits⟩).isInfix
      have later : ¬ EscapesPair ((rest.drop taken).take left) := by
        intro pair
        rw [← Nat.add_sub_cancel left taken, ← List.drop_take] at pair
        exact noPair ((pair.trans (List.drop_suffix taken _).isInfix).trans (List.suffix_cons 0x5C _).isInfix)
      rw [scan_escape isQuote depth escaped here, ih (rest.drop taken).length (by simp; omega) behind later rfl,
        List.drop_drop, List.drop_succ_cons, Nat.add_comm]
    · have later : ¬ EscapesPair (rest.take more) := fun pair => noPair (pair.trans (List.suffix_cons b _).isInfix)
      have passed := ih rest.length (by omega) inside later rfl
      rw [scan, if_neg (not_or.mpr ⟨noQuote, noFeed⟩), List.drop_succ_cons, passed]
      rintro next tail rfl
      exact fun _ => noSlash rfl

/-! Chunks of an accepted source -/

/-- Trivia opens and closes nothing. -/
theorem scan_piece {text rest : Bytes} {newline : Bool} (piece : IsPiece text rest newline)
    (feeds : FeedsHere (text ++ rest)) (depth : Int) : scan .code depth (text ++ rest) = scan .code depth rest := by
  rw [FeedsHere, piece.piece?] at feeds
  cases piece with
  | @blank b _ isBlank =>
    rw [scan_plain (by rcases isBlank with rfl | rfl | rfl | rfl <;> decide)]
    rcases isBlank with rfl | rfl | rfl | rfl <;> exact congrArg (scan .code · rest) (Int.add_zero depth)
  | @line b _ isLine =>
    rw [scan_plain (by rcases isLine with rfl | rfl <;> decide)]
    rcases isLine with rfl | rfl <;> exact congrArg (scan .code · rest) (Int.add_zero depth)
  | @lineComment body _ ends =>
    have atFeed : AtFeed rest := by
      simpa only [List.drop_left] using feeds ⟨body ++ rest, rfl⟩
    have atEnd : AtFeed ((body ++ rest).drop (lineWidth (body ++ rest))) := by rwa [ends, List.drop_left]
    have passed := scan_lineComment atEnd depth
    rw [ends, List.drop_left] at passed
    exact passed
  | @blockComment body _ _ closed =>
    have passed := scan_blockComment (closed rest) depth
    rw [List.drop_left] at passed
    exact passed
  | @wide b text _ _ wide found =>
    refine scan_word ?_ depth rest
    have blank := found []
    unfold wideBlank? at blank
    split at blank
    · rename_i c width decoded
      obtain ⟨tail, same, rfl⟩ := Utf8.decode?_eq_some decoded
      have width : (b :: text).length = (Utf8.encode c).length := by
        rw [List.length_cons]
        grind
      have encoded : Utf8.encode c = b :: text :=
        (List.append_inj (by rwa [List.append_nil] at same ⊢) width).1.symm
      exact List.forall_mem_cons.mpr ⟨isWordByte_of_wide (UInt8.not_lt.mp wide),
        fun x member => isWordByte_of_wide (Utf8.wide_of_encode encoded x member)⟩
    · cases blank

/-- A string literal opens and closes nothing. -/
theorem scan_literal {text rest value : Bytes}
    (found : ∀ behind, StringLiteral.read? (text ++ behind) = some (value, text.length)) (noPair : ¬ EscapesPair text)
    (depth : Int) : scan .code depth (text ++ rest) = scan .code depth rest := by
  obtain ⟨quote, tail, same, isQuote⟩ := StringLiteral.exists_quote (found rest)
  have literal := found rest
  rw [same, StringLiteral.read?, if_pos isQuote] at literal
  obtain ⟨⟨_, width⟩, body, length⟩ := Option.map_eq_some_iff.mp literal
  have behind : tail.drop width = rest := by
    have cut := congrArg (List.drop text.length) same
    rwa [List.drop_left, ← (Prod.mk.inj length).2, List.drop_succ_cons, eq_comm] at cut
  have inside : quote :: tail.take width = text := by
    have front := congrArg (List.take text.length) same
    rwa [List.take_left, ← (Prod.mk.inj length).2, List.take_succ_cons, eq_comm] at front
  have passed := scan_body isQuote depth body fun pair =>
    noPair (inside ▸ pair.trans (List.suffix_cons quote _).isInfix)
  rw [behind] at passed
  rw [same, ← passed, scan, if_pos (by rcases isQuote with rfl | rfl <;> rfl)]
  · rintro next rfl
    rcases isQuote with h | h <;> cases h
  · rintro next rfl
    rcases isQuote with h | h <;> cases h

/-- What a punctuator opens or closes. -/
theorem scan_punct {p : Punct} {rest : Bytes} (apart : ∀ b ∈ rest.head?, b ∉ p.joins) (depth : Int) :
    scan .code depth (p.spelling ++ rest) = scan .code (depth + weight p.spelling) rest := by
  by_cases slash : p = .div ∨ p = .divAssign
  · rcases slash with rfl | rfl
    · refine scan_code depth rfl fun _ next behind => ⟨?_, ?_⟩ <;> rintro rfl
      · exact apart _ behind (by decide)
      · exact apart _ behind (by decide)
    · exact (scan_code depth rfl fun _ next behind => by cases behind; decide).trans
        ((scan_code _ rfl fun isSlash => absurd isSlash (by decide)).trans
          (congrArg (scan .code · rest) (Int.add_assoc depth 0 0)))
  · have plain : p.spelling.all isPlain = true := by
      cases p <;> first | decide | simp at slash
    exact scan_plain plain depth rest

end Unclosed

open Unclosed

theorem Punct.weight_spelling (p : Punct) : Unclosed.weight p.spelling = p.weight := by
  cases p <;> rfl

theorem Token.Spells.scan {t : Token} {text rest : Bytes} (spells : t.Spells text rest)
    (feeds : FeedsHere (text ++ rest)) (depth : Int) :
    Unclosed.scan .code depth (text ++ rest) = Unclosed.scan .code (depth + t.weight) rest := by
  rw [FeedsHere, spells.reads.1] at feeds
  cases spells with
  | number clean _ _ =>
    rw [scan_word (Number.read?_eq_some clean).1.isWordByte, number_weight, Int.add_zero]
  | string found =>
    have noPair := feeds _ (found rest)
    rw [List.take_left] at noPair
    rw [scan_literal found noPair, string_weight, Int.add_zero]
  | name spelled _ => rw [scan_word (Name.read?_eq_some spelled).1.isWordByte, ofName_weight, Int.add_zero]
  | @punct p _ apart => rw [scan_punct apart, p.weight_spelling, punct_weight]

/-- Of a text that is cut into lexemes, the brackets among them count and nothing else. -/
theorem Lexeme.Scans.scan_brackets {offset : Nat} {newline last : Bool} {text rest : Bytes} {lexemes : List Lexeme}
    (scans : Scans offset newline text rest lexemes last) (feeds : FeedsLines (text ++ rest)) (depth : Int) :
    Unclosed.scan .code depth (text ++ rest) =
      Unclosed.scan .code (depth + (lexemes.map (·.token.weight)).sum) rest := by
  induction scans generalizing depth with
  | done => rw [List.map_nil, List.sum_nil, Int.add_zero, List.nil_append]
  | piece isPiece _ ih =>
    rw [List.append_assoc] at feeds ⊢
    obtain ⟨here, behind⟩ := feeds.split isPiece.ne_nil (by rw [chunkWidth, isPiece.piece?])
    rw [scan_piece isPiece here, ih behind]
  | token spells _ ih =>
    rw [List.append_assoc] at feeds ⊢
    obtain ⟨here, behind⟩ := feeds.split spells.ne_nil (by rw [chunkWidth, spells.reads.1, spells.reads.2])
    rw [spells.scan here, ih behind, List.map_cons, List.sum_cons, Int.add_assoc]

namespace Program

/-- An accepted source leaves as many brackets open as were open before it, where line feeds end its comments. -/
theorem scan_source {file source : Bytes} {program : Program} (accepted : parse file source = .ok program)
    (feeds : FeedsLines source) (depth : Int) : scan .code depth source = decide (0 < depth) := by
  obtain ⟨-, lexemes, last, scans, covers⟩ := parse_scans accepted
  have passed := scans.scan_brackets (by rwa [List.append_nil]) depth
  have balanced := covers.total
  rw [List.map_map, Tree.total_yield, List.map_nil, List.sum_nil, Int.add_zero] at balanced
  rw [List.append_nil, show (lexemes.map (·.token.weight)).sum = 0 from balanced, Int.add_zero] at passed
  exact passed

/-- No more input is asked for behind a complete program, if its line comments end with line feeds and no line end of
two bytes is escaped in its strings. -/
theorem isUnclosed_of_parse {file source : Bytes} {program : Program} (accepted : parse file source = .ok program)
    (feeds : FeedsLines source) : isUnclosed source = false :=
  scan_source accepted feeds 0

/-- The comment of the first line ends with two bytes, and the bracket in it and those in the string do not count. In
the string and in the last comment no comment begins. -/
theorem isUnclosed_of_parse_lines :
    ∃ program, parse [] (utf8 "\x7b // (\r\n \"[\\\n(//\"; /* [ // \r */ \u2028 \x7d") = .ok program ∧
      isUnclosed (utf8 "\x7b // (\r\n \"[\\\n(//\"; /* [ // \r */ \u2028 \x7d") = false := by
  have accepted := @parse_of_complete [] (utf8 "\x7b // (\r\n \"[\\\n(//\"; /* [ // \r */ \u2028 \x7d")
    (by decide +kernel)
  exact ⟨_, accepted, isUnclosed_of_parse accepted (by decide +kernel)⟩

/-- A comment that a line separator or a carriage return ends hides the closing bracket behind it, and behind an
escaped line end of two bytes a string is taken for code. -/
theorem unclosed_programs :
    ((∃ program, parse [] (utf8 "\x7b//\u2028\x7d") = .ok program) ∧ isUnclosed (utf8 "\x7b//\u2028\x7d") = true) ∧
    ((∃ program, parse [] (utf8 "\x7b//\r\x7d") = .ok program) ∧ isUnclosed (utf8 "\x7b//\r\x7d") = true) ∧
    (∃ program, parse [] (utf8 "\"\\\r\n(\";") = .ok program) ∧ isUnclosed (utf8 "\"\\\r\n(\";") = true :=
  ⟨⟨⟨_, parse_of_complete (by decide +kernel)⟩, by decide +kernel⟩,
    ⟨⟨_, parse_of_complete (by decide +kernel)⟩, by decide +kernel⟩,
    ⟨_, parse_of_complete (by decide +kernel)⟩, by decide +kernel⟩

end Program

end EcmaFold
