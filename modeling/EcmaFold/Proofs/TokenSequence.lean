import EcmaFold.Proofs.Lexer.Numeral
import EcmaFold.Proofs.Parser.SoundStatement
import EcmaFold.Proofs.Reading

/-!
A program that is read whole is the token sequence of its source: no token is lost, invented or put in another
place, but for commas in arrays that stand for nothing.
-/

namespace EcmaFold

open Scanner (Item Items)

/-- What is read as a token is read as the same token by itself, and it is not the end. -/
theorem Token.read_clean (bytes : Bytes) : (read bytes).1.Clean ∧ (read bytes).1 ≠ .ending := by
  unfold read
  split
  · rename_i value found
    exact ⟨Number.read?_self found, Token.noConfusion⟩
  · split
    · exact ⟨trivial, Token.noConfusion⟩
    · split
      · rename_i spelling found
        unfold ofName
        split
        · exact ⟨trivial, Token.noConfusion⟩
        · rename_i free
          refine ⟨?_, Token.noConfusion⟩
          change (Name.read? spelling).filter _ = some spelling
          rw [Name.read?_self found, Option.filter_some, if_pos (by rw [free]; rfl)]
      · split
        · exact ⟨trivial, Token.noConfusion⟩
        · obtain ⟨text, width, same⟩ := exists_strayAt bytes
          rw [same]
          exact ⟨trivial, Token.noConfusion⟩

/-- The lexemes of a source are clean, and the end comes last. -/
theorem Lexeme.scanFrom_clean (pending offset : Nat) (newline : Bool) (bytes : Bytes) :
    ∃ front last, (scanFrom pending offset newline bytes).map mark = front ++ [(.ending, last)] ∧
      ∀ mark ∈ front, mark.1.Clean ∧ mark.1 ≠ .ending := by
  induction bytes generalizing pending offset newline with
  | nil => cases pending <;> exact ⟨[], newline, rfl, by simp⟩
  | cons b rest ih =>
    cases pending with
    | succ pending => exact ih pending (offset + 1) newline
    | zero =>
      rw [scanFrom]
      split
      · exact ih _ _ _
      · obtain ⟨front, last, same, clean⟩ := ih ((Token.read (b :: rest)).2 - 1) (offset + 1) false
        refine ⟨((Token.read (b :: rest)).1, newline) :: front, last, ?_, ?_⟩
        · exact congrArg _ same
        · exact List.forall_mem_cons.mpr ⟨Token.read_clean (b :: rest), clean⟩

/-- What plain slots cover are ordinary tokens, and it does not matter what comes behind them. -/
theorem Covers.exists_ordinary {arrays : Prop} {slots : List Slot} {marks rest : List Mark}
    (covers : Covers slots marks rest) (plain : Slot.Plain arrays slots) :
    ∃ taken, marks = taken ++ rest ∧ Covers slots taken [] ∧ ∀ mark ∈ taken, mark.1.IsOrdinary := by
  induction slots generalizing marks with
  | nil => exact ⟨[], covers, rfl, by simp⟩
  | cons slot slots ih =>
    have plainTail : Slot.Plain arrays slots := fun slot member => plain slot (List.mem_cons_of_mem _ member)
    cases slot with
    | token t =>
      obtain ⟨newline, more, rfl, tail⟩ := covers
      obtain ⟨taken, rfl, tail, ordinary⟩ := ih tail plainTail
      refine ⟨(t, newline) :: taken, rfl, ⟨newline, taken, rfl, tail⟩, ?_⟩
      exact List.forall_mem_cons.mpr ⟨plain (.token t) List.mem_cons_self, ordinary⟩
    | sameLine =>
      obtain ⟨taken, rfl, tail, ordinary⟩ := ih covers.2 plainTail
      refine ⟨taken, rfl, ⟨?_, tail⟩, ordinary⟩
      intro mark first
      refine covers.1 mark ?_
      rw [List.head?_append, Option.mem_def.mp first]
      rfl
    | elision =>
      obtain ⟨commas, more, all, rfl, tail⟩ := covers
      obtain ⟨taken, rfl, tail, ordinary⟩ := ih tail plainTail
      refine ⟨commas ++ taken, by simp, ⟨commas, taken, all, rfl, tail⟩, ?_⟩
      rw [List.forall_mem_append]
      refine ⟨fun mark member => ?_, ordinary⟩
      rw [all mark member]
      trivial

theorem Cursor.head_of_atEnd {c : Cursor} (ended : c.atEnd = true) : ∀ mark ∈ c.marks.head?, mark.1 = .ending := by
  obtain ⟨_, _ | ⟨⟨token, newline, span⟩, rest⟩⟩ := c
  · rintro mark ⟨⟩
  · rintro mark ⟨⟩
    cases token <;> first | rfl | cases ended

/-- Ordinary tokens up to the end are all that comes before the end. -/
theorem Mark.eq_front {front taken rest : List Mark} {last : Bool} (same : front ++ [(.ending, last)] = taken ++ rest)
    (clean : ∀ mark ∈ front, mark.1 ≠ .ending) (ordinary : ∀ mark ∈ taken, mark.1.IsOrdinary)
    (ended : ∀ mark ∈ rest.head?, mark.1 = .ending) : taken = front := by
  induction front generalizing taken with
  | nil =>
    obtain _ | ⟨mark, taken⟩ := taken
    · rfl
    · obtain ⟨rfl, -⟩ := List.cons.inj same
      exact (ordinary _ List.mem_cons_self).elim
  | cons mark front ih =>
    obtain _ | ⟨mark', taken⟩ := taken
    · cases same
      exact absurd (ended mark rfl) (clean mark List.mem_cons_self)
    · rw [List.cons_append, List.cons_append, List.cons.injEq] at same
      obtain ⟨rfl, same⟩ := same
      rw [ih same (fun mark member => clean mark (List.mem_cons_of_mem _ member))
        fun mark member => ordinary mark (List.mem_cons_of_mem _ member)]

/-- If ordinary tokens come up to the end of a source, nothing comes behind the end. -/
theorem Cursor.marks_of_atEnd {source : Bytes} {taken : List Mark} {c : Cursor}
    (split : Lexeme.marks false source = taken ++ c.marks) (ordinary : ∀ mark ∈ taken, mark.1.IsOrdinary)
    (ended : c.atEnd = true) : ∃ newline, c.marks = [(.ending, newline)] := by
  obtain ⟨front, newline, scanned, clean⟩ := Lexeme.scanFrom_clean 0 0 false source
  have same := scanned.symm.trans split
  obtain rfl := Mark.eq_front same (fun mark member => (clean mark member).2) ordinary (head_of_atEnd ended)
  exact ⟨newline, (List.append_cancel_left same).symm⟩

namespace Reading

open EcmaFold.Parser

/-- The elements that are read cover the marks up to where reading stops. -/
theorem elementsFrom_reads {n : Nat} {g : Grammar} (sound : g.Sound n n) :
    ∀ (bound : List Lexeme) (c : Cursor), c.rest.length ≤ n → c.Clean →
      Covers (Tree.ofList (elementsFrom g bound c).elements).yield c.marks
        (elementsFrom g bound c).cursor.marks ∧
      (Tree.ofList (elementsFrom g bound c).elements).All Tree.Proper := by
  intro bound
  induction bound with
  | nil =>
    intro c _ _
    exact ⟨rfl, trivial⟩
  | cons head bound ih =>
    intro c short clean
    cases ended : c.atEnd with
    | true =>
      rw [elementsFrom_atEnd ended]
      exact ⟨rfl, trivial⟩
    | false =>
      rcases fails_or_gives g.element c with stuck | ⟨element, after, run⟩
      · have stopped := @elementsFrom_fails g (head :: bound) c stuck
        rw [stopped.1, stopped.2]
        exact ⟨rfl, trivial⟩
      · obtain ⟨slots, covers, rfl, proper⟩ := sound.element c short clean element after run
        have rest := ih after (Nat.le_trans covers.rest_length_le short) (clean.of_covers covers)
        have step := @elementsFrom_gives g bound head c after element ended run
        rw [step.1, step.2]
        refine ⟨?_, proper, rest.2⟩
        change Covers (element.slots ++ _).flatten _ _
        rw [List.flatten_append]
        exact covers.append rest.1

theorem clean_scan (source : Bytes) : Cursor.Clean ⟨0, Lexeme.scan source⟩ := by
  obtain ⟨front, last, scanned, clean⟩ := Lexeme.scanFrom_clean 0 0 false source
  intro mark member
  rw [show Cursor.marks ⟨0, Lexeme.scan source⟩ = _ from scanned, List.mem_append, List.mem_singleton] at member
  rcases member with inFront | rfl
  · exact (clean mark inFront).1
  · trivial

/-- The elements that are read from a source are proper, and they cover ordinary tokens up to where reading stops. -/
theorem ofLexemes_reads (source : Bytes) :
    (Tree.ofList (ofLexemes (Lexeme.scan source)).elements).All Tree.Proper ∧
      ∃ taken, Lexeme.marks false source = taken ++ (ofLexemes (Lexeme.scan source)).cursor.marks ∧
        Covers (Tree.ofList (ofLexemes (Lexeme.scan source)).elements).yield taken [] ∧
        ∀ mark ∈ taken, mark.1.IsOrdinary := by
  have reads := elementsFrom_reads (Grammar.ofDepth_sound (Nat.le_refl _)) (Lexeme.scan source)
    ⟨0, Lexeme.scan source⟩ (Nat.le_refl _) (clean_scan source)
  have plain : Slot.Plain True (Tree.ofList (ofLexemes (Lexeme.scan source)).elements).yield :=
    Slot.plain_flatten.mpr (Tree.plain_slots _ fun none => absurd trivial none)
  exact ⟨reads.2, reads.1.exists_ordinary plain⟩

end Reading

namespace Program

/-- A program that is accepted is proper and covers all marks of its source up to the end. -/
theorem parse_covers {file source : Bytes} {program : Program} (accepted : parse file source = .ok program) :
    program.tree.All Tree.Proper ∧ ∃ marks newline, Lexeme.marks false source = marks ++ [(.ending, newline)] ∧
      Covers program.tree.yield marks [] ∧ ∀ mark ∈ marks, mark.1.IsOrdinary := by
  obtain ⟨complete, rfl⟩ := eq_of_parse accepted
  obtain ⟨proper, taken, split, covers, ordinary⟩ := Reading.ofLexemes_reads source
  obtain ⟨newline, ending⟩ := Cursor.marks_of_atEnd split ordinary complete
  refine ⟨⟨trivial, proper⟩, taken, newline, ending ▸ split, ?_, ordinary⟩
  rwa [show (readPart source).tree.yield = _ from List.append_nil _]

/-- The token sequence of an accepted source exists and is the yield of its tree, in which only commas inside
arrays can be left out. -/
theorem parse_items {file source : Bytes} {program : Program} (accepted : parse file source = .ok program) :
    ∃ items, Items (.ofSource source) items ∧ Covers program.tree.yield (items.map Item.mark) [] ∧
      Slot.tokens program.tree.yield = program.tree.tokens ∧
      (program.tree.All Tree.NoArray → items.map (fun item => item.1.token) = program.tree.tokens) := by
  obtain ⟨-, marks, newline, scanned, covers, ordinary⟩ := parse_covers accepted
  obtain ⟨items, sequence⟩ := Scanner.exists_items (.ofSource source) fun mark member text stray => by
    change mark ∈ Lexeme.marks false source at member
    rw [scanned, List.mem_append, List.mem_singleton] at member
    rcases member with inFront | rfl
    · have holds := ordinary mark inFront
      rw [stray] at holds
      exact holds
    · cases stray
  obtain ⟨newline', scanned'⟩ := sequence.marks
  obtain ⟨same, -⟩ := List.append_inj' (scanned'.symm.trans scanned) rfl
  rw [← same] at covers
  refine ⟨items, sequence, covers, program.tree.tokens_yield, fun noArray => ?_⟩
  have plain : Slot.Plain False program.tree.yield := Slot.plain_flatten.mpr (Tree.plain_slots _ fun _ => noArray)
  have tokens := covers.tokens_eq fun slot member elision => by
    have holds := plain slot member
    rwa [elision] at holds
  rw [List.map_map, List.map_nil, List.append_nil] at tokens
  exact tokens.trans program.tree.tokens_yield

/-- The source `[a,,b,];` has three commas, one of which is a token of its tree. -/
theorem parse_items_array : ∃ program, parse [] (utf8 "[a,,b,];") = .ok program ∧
    ∃ items, Items (.ofSource (utf8 "[a,,b,];")) items ∧ Covers program.tree.yield (items.map Item.mark) [] ∧
      Slot.tokens program.tree.yield = program.tree.tokens ∧
      (program.tree.All Tree.NoArray → items.map (fun item => item.1.token) = program.tree.tokens) := by
  have accepted : (parse [] (utf8 "[a,,b,];")).isOk = true := by decide +kernel
  cases result : parse [] (utf8 "[a,,b,];") with
  | ok program => exact ⟨program, rfl, parse_items result⟩
  | error _ =>
    rw [result] at accepted
    cases accepted

end Program

end EcmaFold
