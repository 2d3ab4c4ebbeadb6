import EcmaFold.Proofs.Lexer.Chunks

/-!
Where the lexemes of a source stand: each one where its token is read, one behind the other, and the end of the source
behind all of them.
-/

namespace EcmaFold

namespace Token

/-- The text is a spelling of the token. -/
def SpelledBy : (token : Token) → (text : Bytes) → Prop
  | number value, text => text = value.raw ∧ Number.read? text = some value
  | string value, text => StringLiteral.read? text = some (value, text.length)
  | ending, _ => False
  | token, text => text = token.spelling

theorem spelledBy_ofName (spelling : Bytes) : (ofName spelling).SpelledBy spelling := by
  have same := spelling_ofName spelling
  unfold ofName at same ⊢
  split at same
  · exact same.symm
  · rfl

/-- What is read comes first in the bytes and is a spelling of the token. -/
theorem read_spelledBy {bytes : Bytes} (nonempty : bytes ≠ []) :
    ∃ text rest, bytes = text ++ rest ∧ (read bytes).2 = text.length ∧ (read bytes).1.SpelledBy text := by
  unfold read
  split
  · rename_i value number
    obtain ⟨-, -, -, rest, same, -⟩ := Number.read?_eq_some number
    exact ⟨value.raw, rest, same, rfl, rfl, Number.read?_self number⟩
  split
  · rename_i value width literal
    obtain ⟨text, rest, same, rfl, again⟩ := StringLiteral.read?_eq_some literal
    have alone := again []
    rw [List.append_nil] at alone
    exact ⟨text, rest, same, rfl, alone⟩
  split
  · rename_i spelling name
    obtain ⟨-, rest, same, -⟩ := Name.read?_eq_some name
    exact ⟨spelling, rest, same, rfl, spelledBy_ofName spelling⟩
  split
  · rename_i p longest
    obtain ⟨rest, same, -⟩ := Punct.longest?_eq_some longest
    exact ⟨p.spelling, rest, same, rfl, rfl⟩
  · have taken {width : Nat} (inside : width ≤ bytes.length) : ∃ text rest, bytes = text ++ rest ∧
        width = text.length ∧ (stray (bytes.take width)).SpelledBy text :=
      ⟨bytes.take width, bytes.drop width, (List.take_append_drop _ _).symm,
        (List.length_take_of_le inside).symm, rfl⟩
    unfold strayAt
    split
    · rename_i c width decoded
      have decoded' : Utf8.decode? (bytes ++ []) = some (c, width) := by rwa [List.append_nil]
      exact taken (Utf8.decode?_width_le nonempty Trivia.asciiHead_nil decoded')
    · exact taken (List.length_pos_iff.mpr nonempty)

/-- Where a string can be read, it is what is read. -/
theorem read_of_literal {bytes value : Bytes} {width : Nat}
    (literal : StringLiteral.read? bytes = some (value, width)) : read bytes = (string value, width) := by
  obtain ⟨quote, rest, rfl, isQuote⟩ := StringLiteral.exists_quote literal
  have noNumber : Number.read? (quote :: rest) = none := by
    refine Number.read?_eq_none ?_ fun isPoint => ?_ <;> rcases isQuote with rfl | rfl
    · decide
    · decide
    · exact absurd isPoint (by decide)
    · exact absurd isPoint (by decide)
  rw [read, noNumber, literal]

theorem read_width_le {bytes : Bytes} (nonempty : bytes ≠ []) : (read bytes).2 ≤ bytes.length := by
  obtain ⟨text, rest, same, width, -⟩ := read_spelledBy nonempty
  rw [width, same, List.length_append]
  exact Nat.le_add_right _ _

end Token

/-- The bytes of the source that a span covers. -/
def Span.text (source : Bytes) (span : Span) : Bytes := (source.drop span.start).take (span.stop - span.start)

namespace Lexeme

/-- The lexeme stands in the source: its token is read at its start, behind all trivia, and takes the room up to its
stop. -/
structure At (source : Bytes) (lexeme : Lexeme) : Prop where
  noTrivia : Trivia.piece? (source.drop lexeme.span.start) = none
  reads : Token.read (source.drop lexeme.span.start) = (lexeme.token, lexeme.span.stop - lexeme.span.start)
  start_lt : lexeme.span.start < lexeme.span.stop
  stop_le : lexeme.span.stop ≤ source.length

/-- The text that a lexeme covers is a spelling of its token. -/
theorem At.spelledBy {source : Bytes} {lexeme : Lexeme} (stands : lexeme.At source) :
    lexeme.token.SpelledBy (lexeme.span.text source) := by
  have start := stands.start_lt
  have inside := stands.stop_le
  have nonempty : source.drop lexeme.span.start ≠ [] := by
    rw [Ne, List.drop_eq_nil_iff]
    omega
  obtain ⟨text, rest, split, width, spelled⟩ := Token.read_spelledBy nonempty
  rw [stands.reads] at width spelled
  have same : lexeme.span.text source = text := by
    rw [Span.text, split, show lexeme.span.stop - lexeme.span.start = text.length from width, List.take_left]
  rwa [same]

/-- The lexemes stand in the source one behind the other, none before `low`, and the end of the source comes last. -/
inductive InOrder (source : Bytes) : (low : Nat) → List Lexeme → Prop where
  | ending {low : Nat} {newline : Bool} (inside : low ≤ source.length) :
      InOrder source low [⟨.ending, newline, ⟨source.length, source.length⟩⟩]
  | token {low : Nat} {lexeme : Lexeme} {rest : List Lexeme} (behind : low ≤ lexeme.span.start)
      (stands : lexeme.At source) (more : InOrder source lexeme.span.stop rest) : InOrder source low (lexeme :: rest)

theorem InOrder.ne_nil {source : Bytes} {low : Nat} {lexemes : List Lexeme} (inOrder : InOrder source low lexemes) :
    lexemes ≠ [] := by
  cases inOrder <;> simp

theorem InOrder.le_start {source : Bytes} {low : Nat} {lexemes : List Lexeme} (inOrder : InOrder source low lexemes) :
    ∀ lexeme ∈ lexemes, low ≤ lexeme.span.start := by
  induction inOrder with
  | ending inside => exact List.forall_mem_singleton.mpr inside
  | token behind stands _ ih =>
    have nonempty := stands.start_lt
    refine List.forall_mem_cons.mpr ⟨behind, fun lexeme member => ?_⟩
    have farther := ih lexeme member
    omega

/-- Neighbours stand one behind the other, the first of them where a token is read. -/
theorem InOrder.between {source : Bytes} {low : Nat} {lexemes : List Lexeme} (inOrder : InOrder source low lexemes)
    {before lexeme : Lexeme} (neighbours : [before, lexeme] <:+: lexemes) :
    before.At source ∧ before.span.stop ≤ lexeme.span.start := by
  induction inOrder with
  | ending => exact absurd neighbours.length_le (Nat.not_succ_le_self 1)
  | token _ stands more ih =>
    rcases List.infix_cons_iff.mp neighbours with ⟨rest, same⟩ | later
    · cases same
      exact ⟨stands, more.le_start lexeme List.mem_cons_self⟩
    · exact ih later

/-- Every lexeme but the end stands where its token is read. -/
theorem InOrder.stands {source : Bytes} {low : Nat} {lexemes : List Lexeme} (inOrder : InOrder source low lexemes) :
    ∀ lexeme ∈ lexemes, lexeme.token ≠ .ending → lexeme.At source := by
  induction inOrder with
  | ending => exact List.forall_mem_singleton.mpr fun going => absurd rfl going
  | token _ stands _ ih => exact List.forall_mem_cons.mpr ⟨fun _ => stands, ih⟩

/-- The lexemes take at least one byte each. -/
theorem InOrder.length_le {source : Bytes} {low : Nat} {lexemes : List Lexeme}
    (inOrder : InOrder source low lexemes) : lexemes.length + low ≤ source.length + 1 := by
  induction inOrder with
  | ending inside =>
    rw [List.length_singleton]
    omega
  | @token low lexeme rest behind stands more ih =>
    have nonempty := stands.start_lt
    rw [List.length_cons]
    omega

/-- The lexemes from an offset on stand in the source. -/
theorem scanFrom_inOrder {source : Bytes} {low offset : Nat} (newline : Bool) (behind : low ≤ offset)
    (inside : offset ≤ source.length) : InOrder source low (scanFrom 0 offset newline (source.drop offset)) := by
  generalize left : source.length - offset = n
  induction n using Nat.strongRecOn generalizing low offset newline with
  | _ n ih =>
    cases atOffset : source.drop offset with
    | nil =>
      have ended := List.drop_eq_nil_iff.mp atOffset
      obtain rfl : offset = source.length := Nat.le_antisymm inside ended
      exact .ending behind
    | cons b tail =>
      have length := congrArg List.length atOffset
      rw [List.length_drop, List.length_cons] at length
      cases found : Trivia.piece? (b :: tail) with
      | some piece =>
        obtain ⟨first, rest, same, width, isPiece⟩ := Trivia.piece?_eq_some found
        have positive := List.length_pos_iff.mpr isPiece.ne_nil
        have fits : first.length + rest.length = tail.length + 1 := by
          rw [← List.length_append, ← same, List.length_cons]
        rw [same] at found
        rw [same, scanFrom_of_piece found width isPiece.ne_nil]
        have atRest : source.drop (offset + first.length) = rest := by
          rw [← List.drop_drop, atOffset, same, List.drop_left]
        rw [← atRest]
        exact ih (source.length - (offset + first.length)) (by omega) _ (by omega) (by omega) rfl
      | none =>
        have positive := Token.read_width_pos b tail
        have fits := Token.read_width_le (List.cons_ne_nil b tail)
        rw [List.length_cons] at fits
        rw [scanFrom_of_read found]
        refine .token behind ⟨?_, ?_, ?_, ?_⟩ ?_
        · rwa [atOffset]
        · rw [atOffset]
          simp only [Nat.add_sub_cancel_left]
        · exact Nat.lt_add_of_pos_right positive
        · change offset + (Token.read (b :: tail)).2 ≤ source.length
          omega
        · rw [scanFrom_pending _ _ (by omega)]
          have atRest : source.drop (offset + 1 + ((Token.read (b :: tail)).2 - 1)) =
              tail.drop ((Token.read (b :: tail)).2 - 1) := by
            rw [← List.drop_drop, ← List.drop_drop, atOffset, List.drop_succ_cons, List.drop_zero]
          rw [← atRest]
          refine ih (source.length - (offset + 1 + ((Token.read (b :: tail)).2 - 1))) (by omega) _ ?_ (by omega) rfl
          change offset + (Token.read (b :: tail)).2 ≤ _
          omega

theorem scan_inOrder (source : Bytes) : InOrder source 0 (scan source) :=
  scanFrom_inOrder false (Nat.le_refl 0) (Nat.zero_le _)

/-- A source has at most one lexeme more than it has bytes. -/
theorem length_scan_le (source : Bytes) : (scan source).length ≤ source.length + 1 := (scan_inOrder source).length_le

end Lexeme

end EcmaFold
