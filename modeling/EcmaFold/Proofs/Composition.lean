import EcmaFold.Proofs.Acceptance
import EcmaFold.Proofs.Lowering.Basic
import EcmaFold.Proofs.Lowering.Placeless
import EcmaFold.Proofs.TokenSequence
import EcmaFold.Proofs.Tree.Settled

/-!
Two programs that are accepted make up one program when a line end stands between them: nothing that stands in the
second source changes how the first one is read, and the instructions of both are performed one after the other.
-/

namespace EcmaFold

namespace Lexeme

/-- Where no lexeme comes before the end and no trivia does, nothing is left. -/
theorem eq_nil_of_scanFrom {offset : Nat} {newline : Bool} {bytes : Bytes} {lexeme : Lexeme}
    (scanned : scanFrom 0 offset newline bytes = [lexeme]) (ending : lexeme.token = .ending)
    (noTrivia : Trivia.piece? bytes = none) : bytes = [] := by
  cases bytes with
  | nil => rfl
  | cons b rest =>
    obtain ⟨rfl, -⟩ := List.cons.inj ((scanFrom_of_read noTrivia).symm.trans scanned)
    exact absurd ending (Token.read_clean (b :: rest)).2

/-- Whether a line ends before a source makes a difference for its first mark only. -/
theorem marks_newline (newline newline' : Bool) (bytes : Bytes) :
    ∃ t first first' more, marks newline bytes = (t, first) :: more ∧ marks newline' bytes = (t, first') :: more := by
  have scanned (pending offset : Nat) : ∃ t first first' more,
      (scanFrom pending offset newline bytes).map mark = (t, first) :: more ∧
        (scanFrom pending offset newline' bytes).map mark = (t, first') :: more := by
    induction bytes generalizing newline newline' pending offset with
    | nil => cases pending <;> exact ⟨.ending, newline, newline', [], rfl, rfl⟩
    | cons b rest ih =>
      cases pending with
      | succ pending => exact ih newline newline' pending (offset + 1)
      | zero =>
        rw [scanFrom, scanFrom]
        split
        · exact ih _ _ _ _
        · exact ⟨_, _, _, _, rfl, rfl⟩
  exact scanned 0 0

/-- Behind a text that is cut into lexemes and a line end come the marks of the source that follows. -/
theorem Scans.marks_append {text : Bytes} {lexemes : List Lexeme} {last : Bool}
    (scans : Scans 0 false text [] lexemes last) (source : Bytes) :
    marks false (text ++ 0x0A :: source) = lexemes.map mark ++ marks true source := by
  rw [marks, (scans.extend source).scanFrom, List.map_append, scanFrom_marks, List.drop_zero,
    @marks_of_piece last 0x0A source ⟨1, true⟩ rfl, Bool.or_true]
  rfl

end Lexeme

/-- Ordinary lexemes that settled slots cover make up a text, whatever the source goes on with. -/
theorem Covers.exists_scans {source : Bytes} {slots : List Slot} {front back : List Lexeme}
    (covers : Covers slots (front.map Lexeme.mark) []) (settled : Slot.Settled slots)
    (ordinary : ∀ mark ∈ front.map Lexeme.mark, mark.1.IsOrdinary) (split : Lexeme.scan source = front ++ back)
    (nonempty : back ≠ []) :
    ∃ text rest last, source = text ++ rest ∧ Lexeme.Scans 0 false text rest front last ∧
      Lexeme.scanFrom 0 text.length last rest = back ∧ Trivia.piece? rest = none := by
  have tokens := covers.settled settled
  rw [List.map_map] at tokens
  have found := Lexeme.exists_scans split nonempty tokens fun lexeme member text stray => by
    have holds := ordinary lexeme.mark (List.mem_map_of_mem member)
    rw [show lexeme.mark.1 = _ from stray] at holds
    exact holds
  simpa only [Nat.zero_add] using found

/-- If settled slots cover all ordinary marks of a source, the whole source is cut into the lexemes that they cover. -/
theorem Covers.exists_whole {source : Bytes} {slots : List Slot} {marks : List Mark} {newline : Bool}
    (covers : Covers slots marks []) (settled : Slot.Settled slots) (ordinary : ∀ mark ∈ marks, mark.1.IsOrdinary)
    (scanned : Lexeme.marks false source = marks ++ [(.ending, newline)]) :
    ∃ front last, Lexeme.Scans 0 false source [] front last ∧ front.map Lexeme.mark = marks := by
  obtain ⟨front, back, split, rfl, ended⟩ := List.map_eq_append_iff.mp scanned
  obtain ⟨ending, rfl, isEnding⟩ := List.map_eq_singleton_iff.mp ended
  obtain ⟨text, rest, last, rfl, scans, tail, noTrivia⟩ :=
    covers.exists_scans settled ordinary split (List.cons_ne_nil _ _)
  obtain rfl := Lexeme.eq_nil_of_scanFrom tail (congrArg Prod.fst isEnding) noTrivia
  rw [List.append_nil]
  exact ⟨front, last, scans, rfl⟩

namespace Tree

/-- The nodes of a list tree. -/
def toList {kind : Kind} : Tree (.list kind) → List (Node kind)
  | nil => []
  | cons head tail => head :: tail.toList

@[simp] theorem toList_ofList {kind : Kind} (list : List (Node kind)) : (ofList list).toList = list := by
  induction list with
  | nil => rw [ofList, toList]
  | cons head tail ih => rw [ofList, toList, ih]

/-- Whether a line ends before elements makes no difference for what covers them. -/
theorem covers_elements_newline {items : List (Node .element)} (proper : (ofList items).All Proper) {t : Token}
    {first last : Bool} {more : List Mark}
    (covers : Covers (ofList items).yield ((t, first) :: more) [(.ending, last)]) (first' : Bool) :
    ∃ last', Covers (ofList items).yield ((t, first') :: more) [(.ending, last')] := by
  cases items with
  | nil =>
    cases covers
    exact ⟨first', rfl⟩
  | cons item items =>
    obtain ⟨u, slots, same, -⟩ := heads_yield (item.heads_layout proper.1 Kind.noConfusion 0)
    have begins : (ofList (item :: items)).yield = .token u :: (slots ++ (ofList items).yield) := by
      have split : (ofList (item :: items)).yield = item.yield ++ (ofList items).yield := List.flatten_append
      rw [split, show item.yield = _ from same]
      rfl
    rw [begins] at covers ⊢
    obtain ⟨_, _, same, tail⟩ := covers
    cases same
    exact ⟨last, first', more, rfl, tail⟩

/-- The value of an element does not depend on what stands before it. -/
theorem lower_element (element : Node .element) (before before' : Value) :
    element.lower before = element.lower before' := by
  cases element with
  | funcDecl => rfl
  | ofStatement statement =>
    cases statement with
    | ofBlock block =>
      cases block
      rfl
    | _ => rfl

/-- Elements that are lowered behind others: their own value if there are any, and their own instructions. -/
theorem lower_elements (items : List (Node .element)) (before : Value) :
    (ofList items).lower before =
      { (ofList items).lower .void with
        value := if items.isEmpty then before else ((ofList items).lower .void).value } := by
  cases items with
  | nil => rfl
  | cons item items =>
    change item.lower before >>= (ofList items).lower = _
    rw [item.lower_element before .void]
    rfl

end Tree

namespace Program

open EcmaFold.Tree

/-- The source elements of a program. -/
def elements : Program → List (Node .element)
  | ⟨_, _, .program _ list⟩ => list.toList

/-- A program is its source elements. -/
theorem exists_tree (program : Program) : ∃ span, program.tree = .program span (ofList program.elements) := by
  obtain ⟨file, source, tree⟩ := program
  cases tree with
  | program span list =>
    obtain ⟨items, rfl⟩ := exists_ofList list
    exact ⟨span, congrArg (Tree.program span) (congrArg ofList (toList_ofList items).symm)⟩

theorem lower_tree (program : Program) : program.tree.lower .void = (ofList program.elements).lower .void := by
  obtain ⟨span, same⟩ := program.exists_tree
  rw [same]
  rfl

/-- The name of a file makes no difference for the tree. -/
theorem parse_file {file source : Bytes} {program : Program} (accepted : parse file source = .ok program)
    (file' : Bytes) : parse file' source = .ok { program with file := file' } := by
  obtain ⟨complete, rfl⟩ := eq_of_parse accepted
  exact parse_of_complete complete

/-- The whole source of an accepted program is cut into lexemes, which its elements cover. -/
theorem parse_scans {file source : Bytes} {program : Program} (accepted : parse file source = .ok program) :
    (ofList program.elements).All Proper ∧ ∃ lexemes last, Lexeme.Scans 0 false source [] lexemes last ∧
      Covers (ofList program.elements).yield (lexemes.map Lexeme.mark) [] := by
  obtain ⟨proper, marks, newline, scanned, covers, ordinary⟩ := parse_covers accepted
  obtain ⟨span, same⟩ := program.exists_tree
  rw [same] at proper covers
  replace covers : Covers (ofList program.elements).yield marks [] := covers.of_single rfl
  refine ⟨proper.2, ?_⟩
  obtain ⟨front, last, scans, rfl⟩ := covers.exists_whole (settled_yield proper.2) ordinary scanned
  exact ⟨front, last, scans, covers⟩

/-- Two accepted sources with a line end between them are accepted, and the elements are those of both. -/
theorem parse_lines (file : Bytes) {file₁ file₂ a b : Bytes} {first second : Program}
    (accepted : parse file₁ a = .ok first) (accepted' : parse file₂ b = .ok second) :
    ∃ joined, parse file (a ++ 0x0A :: b) = .ok joined ∧
      joined.elements.map erase = (first.elements ++ second.elements).map erase := by
  obtain ⟨proper, lexemes, last, scans, covers⟩ := parse_scans accepted
  obtain ⟨properTree', marks', newline', scanned', covers', -⟩ := parse_covers accepted'
  obtain ⟨span', same'⟩ := second.exists_tree
  rw [same'] at properTree' covers'
  obtain ⟨-, proper'⟩ := properTree'
  replace covers' : Covers (ofList second.elements).yield (Lexeme.marks false b) [(.ending, newline')] := by
    rw [scanned']
    exact (show Covers (ofList second.elements).yield marks' [] from covers'.of_single rfl).inFrontOf
      (settled_yield proper') _
  obtain ⟨t, flag, flag', more, marks, marks'⟩ := Lexeme.marks_newline false true b
  rw [marks] at covers'
  obtain ⟨last', covers'⟩ := covers_elements_newline proper' covers' flag'
  rw [← marks'] at covers'
  have all : Covers (ofList (first.elements ++ second.elements)).yield (Lexeme.marks false (a ++ 0x0A :: b))
      [(.ending, last')] := by
    rw [scans.marks_append, yield_ofList_append]
    exact (covers.inFrontOf (settled_yield proper) _).append covers'
  let tree : Node .program := .program .zero (ofList (first.elements ++ second.elements))
  have properTree : tree.All Proper := ⟨trivial, all_ofList.mpr
    (List.forall_mem_append.mpr ⟨all_ofList.mp proper, all_ofList.mp proper'⟩)⟩
  have yields : tree.yield = (ofList (first.elements ++ second.elements)).yield := List.append_nil _
  rw [← yields] at all
  obtain ⟨joined, accepted, same⟩ := parse_of_covers file properTree all
  obtain ⟨span, isTree⟩ := joined.exists_tree
  rw [isTree] at same
  have inside : (ofList joined.elements).erase = (ofList (first.elements ++ second.elements)).erase :=
    (Tree.program.inj same).2
  rw [erase_ofList, erase_ofList] at inside
  refine ⟨joined, accepted, ?_⟩
  rw [← toList_ofList (joined.elements.map erase), inside, toList_ofList]

/-- The instructions and the value of a program are those of its elements. -/
theorem lowerAfter_same {program : Program} {items : List (Node .element)}
    (same : program.elements.map erase = items.map erase) (recorded : Nat) :
    (program.lowerAfter recorded).Same ((ofList items).lower .void) := by
  have erased : (ofList program.elements).erase = (ofList items).erase := by rw [erase_ofList, same, erase_ofList]
  have lowered := lower_same_of_erase_eq erased .void
  rwa [← program.lower_tree] at lowered

/-- A session with one more source. -/
theorem compileSession_cons {file source : Bytes} {program : Program} (accepted : parse file source = .ok program)
    (sources : List Bytes) (recorded : Trace) :
    compileSession (source :: sources) recorded =
      ((program.compile.value.text, (recorded ++ program.compile.trace).length) ::
        (compileSession sources (recorded ++ program.compile.trace)).1,
        (compileSession sources (recorded ++ program.compile.trace)).2) := by
  rw [compileSession, parse_file accepted []]
  rfl

/-- Two accepted sources with a line end between them are accepted. The elements are those of both, and whatever was
recorded before, the same is appended to it as by lowering one program after the other; the value is that of the
second one if it has an element, and otherwise that of the first one. -/
theorem parse_lines_lower (file : Bytes) {file₁ file₂ a b : Bytes} {first second : Program}
    (accepted : parse file₁ a = .ok first) (accepted' : parse file₂ b = .ok second) :
    ∃ joined, parse file (a ++ 0x0A :: b) = .ok joined ∧
      joined.elements.map erase = (first.elements ++ second.elements).map erase ∧
      (∀ recorded : Nat,
        (joined.lowerAfter recorded).trace = first.compile.trace ++ second.compile.trace ∧
        (joined.lowerAfter recorded).value =
          if second.elements.isEmpty then first.compile.value else second.compile.value) ∧
      ∀ recorded : Trace,
        compileSession [a, b] recorded =
          ([(first.compile.value.text, (recorded ++ first.compile.trace).length),
            (second.compile.value.text, (recorded ++ first.compile.trace ++ second.compile.trace).length)],
            recorded ++ first.compile.trace ++ second.compile.trace) ∧
        compileSession [a ++ 0x0A :: b] recorded =
          ([(joined.compile.value.text, (recorded ++ first.compile.trace ++ second.compile.trace).length)],
            recorded ++ first.compile.trace ++ second.compile.trace) := by
  obtain ⟨joined, acceptedBoth, same⟩ := parse_lines file accepted accepted'
  have lowered (recorded : Nat) : (joined.lowerAfter recorded).trace = first.compile.trace ++ second.compile.trace ∧
      (joined.lowerAfter recorded).value =
        if second.elements.isEmpty then first.compile.value else second.compile.value := by
    have both := lowerAfter_same same recorded
    rw [lower_ofList_append, ← first.lower_tree] at both
    obtain ⟨value, trace⟩ := both
    change _ = ((ofList second.elements).lower first.compile.value).value at value
    change _ = first.compile.trace ++ ((ofList second.elements).lower first.compile.value).trace at trace
    rw [lower_elements, ← second.lower_tree] at value trace
    exact ⟨trace, value⟩
  refine ⟨joined, acceptedBoth, same, lowered, fun recorded => ⟨?_, ?_⟩⟩
  · rw [compileSession_cons accepted, compileSession_cons accepted']
    rfl
  · rw [compileSession_cons acceptedBoth, show joined.compile.trace = _ from (lowered 0).1, ← List.append_assoc]
    rfl

/-- The source `if (1) 2; // x` could go on with `else`, and its comment ends with the line. -/
theorem parse_lines_lower_example :
    ∃ first second joined, parse [] (utf8 "if (1) 2; // x") = .ok first ∧ parse [] (utf8 " 1 + 2 ;") = .ok second ∧
      parse [] (utf8 "if (1) 2; // x" ++ 0x0A :: utf8 " 1 + 2 ;") = .ok joined ∧
      joined.elements.map erase = (first.elements ++ second.elements).map erase ∧
      (joined.lowerAfter 7).trace = first.compile.trace ++ second.compile.trace := by
  have accepted : (parse [] (utf8 "if (1) 2; // x")).isOk = true := by decide +kernel
  have accepted' : (parse [] (utf8 " 1 + 2 ;")).isOk = true := by decide +kernel
  cases result : parse [] (utf8 "if (1) 2; // x") with
  | error _ =>
    rw [result] at accepted
    cases accepted
  | ok first =>
    cases result' : parse [] (utf8 " 1 + 2 ;") with
    | error _ =>
      rw [result'] at accepted'
      cases accepted'
    | ok second =>
      obtain ⟨joined, acceptedBoth, same, lowered, -⟩ := parse_lines_lower [] result result'
      exact ⟨first, second, joined, rfl, rfl, acceptedBoth, same, (lowered 7).1⟩

end Program

end EcmaFold
