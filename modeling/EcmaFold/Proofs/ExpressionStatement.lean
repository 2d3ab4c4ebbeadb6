import EcmaFold.Proofs.Lexer.LastChunk
import EcmaFold.Proofs.Spans

/-!
An expression by itself and an expression statement. What is read from a source as an expression is what a statement
consists of when a line end and a semicolon are put behind the source, at the same places.
-/

namespace EcmaFold

/-! Routes that ask for the tokens that they go over -/

namespace Route

variable {α β : Type}

theorem AsksAhead.bind {route : Route α} {f : α → Route β} (first : route.AsksAhead) (next : ∀ v, (f v).AsksAhead) :
    (route >>= f).AsksAhead := by
  change (route.bind f).AsksAhead
  induction route with
  | done value => exact next value
  | pass _ ih | passCommas _ ih => exact ih first
  | stop _ ih => exact fun n => ih n (first n)
  | start rest ih =>
    refine fun n => ⟨fun c => ?_, ih n (first n).2⟩
    change c.Past ((rest n >>= f).follow c).2
    rw [follow_bind]
    exact ((first n).1 c).to_follow _

theorem asksAhead_pure (value : α) : (pure value : Route α).AsksAhead := trivial

theorem asksAhead_steps (count : Nat) : (steps count).AsksAhead := by
  induction count with
  | zero => trivial
  | succ count ih => exact ih

theorem asksAhead_commas : commas.AsksAhead := trivial

/-- What is placed begins with a token if the route inside goes over one. -/
theorem asksAhead_placed {inside : Route (Span → α)} (past : ∀ c : Cursor, c.Past ((placed inside).follow c).2)
    (ahead : inside.AsksAhead) : (placed inside).AsksAhead := by
  refine fun first => ⟨fun c => ?_, ahead.bind fun build n => trivial⟩
  have goesOn := past c
  rw [follow_placed] at goesOn
  rw [follow_bind]
  exact goesOn

end Route

namespace Tree

open Route

/-- If the routes between the nodes of a list ask for the tokens that they go over, so does the route of the tree. -/
def RouteAsksAhead {shape : Shape} (tree : Tree shape) : Prop :=
  ∀ ⦃lead joint : Route Unit⦄, lead.AsksAhead → joint.AsksAhead → (tree.route lead joint).AsksAhead

theorem RouteAsksAhead.route {shape : Shape} {tree : Tree shape} (ahead : tree.RouteAsksAhead) {lead joint : Route Unit}
    (leadAhead : lead.AsksAhead) (jointAhead : joint.AsksAhead) : (tree.route lead joint).AsksAhead :=
  ahead leadAhead jointAhead

/-- The route of a proper tree asks for the tokens that it goes over; only a program asks for what stands behind it. -/
theorem routeAsksAhead {shape : Shape} (tree : Tree shape) (proper : tree.All Proper) (noProgram : shape.kind ≠ .program) :
    tree.RouteAsksAhead := by
  have nothing : (pure () : Route Unit).AsksAhead := asksAhead_pure ()
  induction tree with
  | nil | absent => exact fun _ _ _ _ => asksAhead_pure _
  | program => exact absurd rfl noProgram
  | cons first rest ih ih' =>
    intro lead joint leadAhead jointAhead
    simp only [route]
    refine leadAhead.bind fun _ => ((ih proper.1 noProgram).route nothing nothing).bind fun _ => ?_
    exact ((ih' proper.2 noProgram).route jointAhead jointAhead).bind fun _ => asksAhead_pure _
  | present inner ih =>
    intro lead joint leadAhead _
    simp only [route]
    exact leadAhead.bind fun _ => ((ih proper noProgram).route nothing nothing).bind fun _ => asksAhead_pure _
  | ofStatement inner ih | ofBlock inner ih | ofInstantiation inner ih | ofArguments inner ih | instantiated inner ih =>
    intro lead joint _ _
    simp only [route]
    exact ((ih proper Kind.noConfusion).route nothing nothing).bind fun _ => asksAhead_pure _
  | target inner op ih =>
    intro lead joint _ _
    simp only [route]
    exact ((ih proper Kind.noConfusion).route nothing nothing).bind fun _ =>
      (asksAhead_steps 1).bind fun _ => asksAhead_pure _
  | operation tier op offset operand ih =>
    intro lead joint _ _
    have past := routePast _ proper rfl lead joint
    simp only [route, follow, follow_bind, follow_pure] at past ⊢
    refine fun n => ⟨fun c => ?_, (asksAhead_steps 1).bind fun _ => ?_⟩
    · simpa only [follow_bind, follow_pure] using past c
    · exact ((ih proper tier.operand_ne_program).route nothing nothing).bind fun _ => asksAhead_pure _
  | level span tier head operations ih ih' =>
    intro lead joint _ _
    have past := routePast _ proper rfl lead joint
    simp only [route] at past ⊢
    refine asksAhead_placed past (((ih proper.2.1 tier.operand_ne_program).route nothing nothing).bind fun _ => ?_)
    exact ((ih' proper.2.2 Kind.noConfusion).route nothing nothing).bind fun _ => asksAhead_pure _
  | emptyStmt | continueStmt | breakStmt | debugger | property | thisExpr | ident | nullLit | boolLit | numberLit
  | stringLit =>
    intro lead joint _ _
    have past := routePast _ proper rfl lead joint
    simp only [route] at past ⊢
    refine asksAhead_placed past ?_
    with_reducible repeat' first
      | apply asksAhead_pure
      | apply asksAhead_steps
      | apply AsksAhead.bind
      | intro _
  | _ =>
    intro lead joint _ _
    have past := routePast _ proper rfl lead joint
    simp only [All] at proper
    casesm* _ ∧ _
    simp_all only [Shape.kind, ne_eq, reduceCtorEq, not_false_eq_true, forall_const]
    simp only [route, functionRoute] at past ⊢
    refine asksAhead_placed past ?_
    with_reducible repeat' first
      | intro _
      | apply AsksAhead.bind
      | apply RouteAsksAhead.route
      | assumption
      | apply asksAhead_steps
      | apply asksAhead_pure
      | apply asksAhead_commas

theorem yield_statement (span : Span) (expr : Node .sequence) :
    (ofList [Tree.ofStatement (.exprStmt span expr)]).yield = expr.yield ++ [.punct .semicolon] := by
  simp [yield, Tree.slots, ofList]

/-- What is an expression statement up to positions is one. -/
theorem exists_statement {items : List (Node .element)} {span : Span} {expr : Node .sequence}
    (same : (ofList items).erase = (ofList [.ofStatement (.exprStmt span expr)]).erase) :
    ∃ span' expr', items = [.ofStatement (.exprStmt span' expr')] ∧ Same expr' expr := by
  obtain _ | ⟨item, _ | ⟨_, _⟩⟩ := items
  · cases same
  · have element := (Tree.cons.inj same).1
    cases item with
    | funcDecl => cases element
    | ofStatement statement =>
      have statementSame := Tree.ofStatement.inj element
      cases statement with
      | exprStmt span' expr' => exact ⟨span', expr', rfl, (Tree.exprStmt.inj statementSame).2⟩
      | _ => cases statementSame
  · cases (Tree.cons.inj same).2

end Tree

theorem Cursor.length_of_advance {c : Cursor} {count : Nat} (length : c.advance.rest.length = count + 1) :
    c.rest.length = count + 2 := by
  obtain ⟨_, _ | ⟨next, rest⟩⟩ := c
  · cases length
  · exact congrArg Nat.succ length

namespace Program

open EcmaFold.Parser EcmaFold.Tree

/-- A source consists of lexemes that an expression covers, and the places in the expression are theirs, whatever
follows them: anything but a comma, which could belong to the expression. -/
structure MakesUp (source : Bytes) (expr : Node .sequence) (front : List Lexeme) : Prop where
  proper : expr.All Proper
  scans : ∃ last, Lexeme.Scans 0 false source [] front last
  covers : Covers expr.yield (front.map Lexeme.mark) []
  stays : ∀ back : List Lexeme, (∀ next ∈ back.head?, next.token ≠ .punct .comma) →
    (expr.route.follow ⟨0, front ++ back⟩).1 = expr

/-- It is enough that the places are those of the lexemes in front of a rest that the route of the expression leaves. -/
theorem makesUp_of_follow {source : Bytes} {expr : Node .sequence} {front back : List Lexeme} {last : Bool}
    (proper : expr.All Proper) (scans : Lexeme.Scans 0 false source [] front last)
    (covers : Covers expr.yield (front.map Lexeme.mark) []) {after : Cursor}
    (stands : expr.Stands ⟨0, front ++ back⟩ after) (length : after.rest.length = back.length) (nonempty : back ≠ []) :
    MakesUp source expr front := by
  refine ⟨proper, ⟨last, scans⟩, covers, fun back' noComma => ?_⟩
  have ahead : expr.route.AsksAhead :=
    (routeAsksAhead expr proper Kind.noConfusion).route (Route.asksAhead_pure ()) (Route.asksAhead_pure ())
  have suffix := Route.follow_rest expr.route ⟨0, front ++ back⟩
  rw [stands] at suffix
  have behind := (List.suffix_of_suffix_length_le suffix (List.suffix_append front back)
    (Nat.le_of_eq length)).eq_of_length length
  have places := Route.follow_append (by rw [stands]; exact behind) nonempty (.inl ahead) noComma
  rwa [stands] at places

namespace MakesUp

variable {source : Bytes} {expr expr' : Node .sequence} {front front' : List Lexeme}

/-- Expressions that are the same up to positions and make up the same source are equal. -/
theorem eq_of_same (made : MakesUp source expr front) (made' : MakesUp source expr' front')
    (same : Same expr expr') : expr = expr' := by
  obtain ⟨last, scans⟩ := made.scans
  obtain ⟨last', scans'⟩ := made'.scans
  obtain ⟨rfl, -⟩ := List.append_inj' (scans.scan.symm.trans scans'.scan) rfl
  rw [← made.stays [] nofun, ← made'.stays [] nofun, route_eq_of_erase_eq same]

/-- The first token of the source is that of the expression. -/
theorem next? (made : MakesUp source expr front) : (Cursor.ofSource source).next? = expr.tokens.head? := by
  obtain ⟨last, scans⟩ := made.scans
  obtain ⟨t, newline, more, marks, -, -, head⟩ := made.covers.starts made.proper Kind.noConfusion
  rw [Cursor.next?_eq_marks, Cursor.ofSource, Cursor.marks, scans.scan, List.map_append, marks, ← expr.tokens_yield,
    head]
  rfl

/-- The places in the expression lie in the source, and in front of a carriage return at its end, which a line feed
behind it would join. -/
theorem exists_fits (made : MakesUp source expr front) : ∃ text rest, source = text ++ rest ∧ rest.head? ≠ some 0x0A ∧
    ((rest ++ utf8 "\n;").head? = some 0x0A → text.getLast? ≠ some 0x0D) ∧ expr.All (Fits text.length) := by
  have fits {text rest : Bytes} {last : Bool} (scans : Lexeme.Scans 0 false text rest front last) :
      expr.All (Fits text.length) := by
    have within : Cursor.Within text.length ⟨0, front ++ []⟩ := by
      refine ⟨Nat.zero_le _, ?_⟩
      rw [List.append_nil, ← Nat.zero_add text.length]
      exact scans.inside
    have all := @routeFits text.length _ expr (pure ()) (pure ()) _ within
    rwa [made.stays [] nofun] at all
  obtain ⟨last, scans⟩ := made.scans
  by_cases carriage : source.getLast? = some 0x0D
  · obtain ⟨text, rfl⟩ := List.getLast?_eq_some_iff.mp carriage
    obtain ⟨flag, scansText⟩ := scans.of_line (.inr rfl)
    exact ⟨text, [0x0D], rfl, by decide, fun joins => absurd joins (by decide), fits scansText⟩
  · exact ⟨source, [], (List.append_nil _).symm, by decide, fun _ => carriage, fits scans⟩

/-- The places in the expression are on the same lines and columns when a line end and a semicolon follow. -/
theorem position_eq (made : MakesUp source expr front) : expr.All fun _ node => ∀ place ∈ node.places,
    (Lines.ofSource [] source).position place = (Lines.ofSource [] (source ++ utf8 "\n;")).position place := by
  obtain ⟨text, rest, rfl, noFeed, noPair, fits⟩ := made.exists_fits
  refine all_iff_nodes.mpr fun any member place held => ?_
  have inside := all_iff_nodes.mp fits any member place held
  rw [List.append_assoc, ← Lines.position_append [] text (fun feed => absurd feed noFeed) inside,
    ← Lines.position_append [] text noPair inside]

end MakesUp

theorem gives_of_parseExpression {source : Bytes} {expr : Node .sequence}
    (accepted : parseExpression source = .ok expr) :
    ∃ after, ((Grammar.ofDepth (Lexeme.scan source).length).sequence true).Gives (.ofSource source) expr after ∧
      after.atEnd = true := by
  simp only [parseExpression] at accepted
  split at accepted
  · cases accepted
  · rename_i after run
    split at accepted
    · cases accepted
      exact ⟨after, run, ‹_›⟩
    · cases accepted

/-- What is read as an expression makes up the source. -/
theorem makesUp_of_parseExpression {source : Bytes} {expr : Node .sequence}
    (accepted : parseExpression source = .ok expr) : ∃ front, MakesUp source expr front := by
  obtain ⟨after, run, ended⟩ := gives_of_parseExpression accepted
  obtain ⟨slots, coversAll, ⟨rfl, proper⟩, -⟩ := (Grammar.ofDepth_sound (Nat.le_refl _)).sequence (Nat.le_refl _)
    (Reading.clean_scan source) expr after run
  obtain ⟨marks, split, covers, ordinary⟩ :=
    coversAll.exists_ordinary (Slot.plain_flatten.mpr (plain_slots expr fun none => absurd trivial none))
  obtain ⟨newline, ending⟩ := Cursor.marks_of_atEnd split ordinary ended
  obtain ⟨front, last, scans, rfl⟩ := covers.exists_whole (settled_yield proper) ordinary (ending ▸ split)
  have stands := (Grammar.ofDepth_places _).sequence _ expr after run
  rw [Cursor.ofSource, scans.scan] at stands
  refine ⟨front, makesUp_of_follow proper scans covers stands ?_ (List.cons_ne_nil _ _)⟩
  rw [← after.marks_length, ending]
  rfl

/-- The elements of an accepted program stand in front of the last lexeme, which is the end. -/
theorem elements_stand {file source : Bytes} {program : Program} (accepted : parse file source = .ok program) :
    ∃ after : Cursor, (ofList program.elements).Stands (.ofSource source) after ∧ after.rest.length = 1 := by
  obtain ⟨complete, rfl⟩ := eq_of_parse accepted
  obtain ⟨-, taken, split, -, ordinary⟩ := Reading.ofLexemes_reads source
  obtain ⟨newline, ending⟩ := Cursor.marks_of_atEnd split ordinary complete
  refine ⟨(reading source).cursor, ?_, ?_⟩
  · change (ofList (ofList (reading source).elements).toList).Stands _ _
    rw [toList_ofList]
    exact Reading.elementsFrom_stands (Grammar.ofDepth_places _) _ _
  · rw [← Cursor.marks_length, ending]
    rfl

/-- What a single expression statement consists of makes up the source in front of the last line. -/
theorem makesUp_of_parse {source : Bytes} {program : Program} {span : Span} {expr : Node .sequence}
    (accepted : parse [] (source ++ utf8 "\n;") = .ok program)
    (single : program.elements = [.ofStatement (.exprStmt span expr)]) :
    (∃ front, MakesUp source expr front) ∧ expr.tokens.head? ≠ some (.keyword .kwFunction) := by
  rw [show utf8 "\n;" = [0x0A] ++ [0x3B] from by decide +kernel, ← List.append_assoc] at accepted
  obtain ⟨proper, lexemes, last, scans, covers⟩ := parse_scans accepted
  obtain ⟨after, stands, length⟩ := elements_stand accepted
  rw [single] at proper covers stands
  obtain ⟨⟨noFunction, proper⟩, -⟩ := proper
  refine ⟨?_, noFunction⟩
  obtain ⟨front, semicolon, flag, rfl, isSemicolon, scansFront⟩ := scans.of_semicolon
  rw [yield_statement] at covers
  obtain ⟨between, covers, _, _, rfl, rfl⟩ := covers.of_append
  obtain ⟨marks, split, covers, -⟩ :=
    covers.exists_ordinary (Slot.plain_flatten.mpr (plain_slots expr fun none => absurd trivial none))
  rw [List.map_append] at split
  obtain ⟨rfl, -⟩ := List.append_inj' split rfl
  rw [Cursor.ofSource, scans.scan, List.append_assoc] at stands
  simp only [Stands, ofList, route, Route.follow_bind, Route.follow_pure, Route.follow_placed, Prod.mk.injEq,
    Tree.cons.injEq, Tree.ofStatement.injEq, Tree.exprStmt.injEq] at stands
  obtain ⟨⟨⟨-, stays⟩, -⟩, rfl⟩ := stands
  exact ⟨front, makesUp_of_follow proper scansFront.cut covers (Prod.ext stays rfl) (Cursor.length_of_advance length)
    (List.cons_ne_nil _ _)⟩

/-- Where an expression makes up a source, the source with a line end and a semicolon behind it consists of an
expression statement, unless the expression begins with a function. -/
theorem MakesUp.exists_parse {source : Bytes} {expr : Node .sequence} {front : List Lexeme}
    (made : MakesUp source expr front) (noFunction : expr.tokens.head? ≠ some (.keyword .kwFunction)) :
    ∃ program span, parse [] (source ++ utf8 "\n;") = .ok program ∧
      program.elements = [.ofStatement (.exprStmt span expr)] := by
  let tree : Node .program := .program .zero (ofList [.ofStatement (.exprStmt .zero expr)])
  have spelled : tree.yield = expr.yield ++ [.punct .semicolon] := (List.append_nil _).trans (yield_statement _ _)
  obtain ⟨last, scans⟩ := made.scans
  have covers : Covers tree.yield (Lexeme.marks false (source ++ 0x0A :: [0x3B])) [(.ending, false)] := by
    rw [scans.marks_append, spelled]
    exact (made.covers.inFrontOf (settled_yield made.proper) _).append ⟨true, _, rfl, rfl⟩
  have proper : tree.All Proper := ⟨trivial, ⟨noFunction, made.proper⟩, trivial⟩
  obtain ⟨program, accepted, same⟩ := parse_of_covers [] proper covers
  obtain ⟨whole, isTree⟩ := program.exists_tree
  rw [isTree] at same
  obtain ⟨span, found, single, sameExpr⟩ := exists_statement (Tree.program.inj same).2
  obtain ⟨⟨front', made'⟩, -⟩ := makesUp_of_parse accepted single
  rw [made'.eq_of_same made sameExpr] at single
  exact ⟨program, span, accepted, single⟩

/-- An expression makes up a source exactly if it is read from the source as an expression. -/
theorem parseExpression_iff_makesUp {source : Bytes} {expr : Node .sequence} :
    parseExpression source = .ok expr ↔ ∃ front, MakesUp source expr front := by
  refine ⟨makesUp_of_parseExpression, fun ⟨front, made⟩ => ?_⟩
  obtain ⟨last, scans⟩ := made.scans
  have covers : Covers expr.yield (Lexeme.marks false source) [(.ending, last)] := by
    rw [Lexeme.marks, ← Lexeme.scan, scans.scan, List.map_append]
    exact made.covers.inFrontOf (settled_yield made.proper) _
  obtain ⟨found, accepted, same⟩ := parseExpression_of_covers made.proper covers
  obtain ⟨front', made'⟩ := makesUp_of_parseExpression accepted
  rwa [made'.eq_of_same made same] at accepted

/-- Reading an expression agrees with reading an expression statement. Exactly if a source is read as an expression
and does not begin with a function, the source with a line end and a semicolon behind it is a program whose only
element is the statement that consists of this expression, with the same offsets in it; and each of them is on the same
line and column in both sources. -/
theorem parseExpression_iff_parse (source : Bytes) (expr : Node .sequence) :
    (parseExpression source = .ok expr ∧ (Cursor.ofSource source).next? ≠ some (.keyword .kwFunction) ↔
      ∃ program span, parse [] (source ++ utf8 "\n;") = .ok program ∧
        program.elements = [.ofStatement (.exprStmt span expr)]) ∧
    (parseExpression source = .ok expr → expr.All fun _ node => ∀ place ∈ node.places,
      (Lines.ofSource [] source).position place =
        (Lines.ofSource [] (source ++ utf8 "\n;")).position place) := by
  refine ⟨⟨?_, ?_⟩, fun accepted => ?_⟩
  · rintro ⟨accepted, noFunction⟩
    obtain ⟨front, made⟩ := makesUp_of_parseExpression accepted
    rw [made.next?] at noFunction
    exact made.exists_parse noFunction
  · rintro ⟨program, span, accepted, single⟩
    obtain ⟨⟨front, made⟩, noFunction⟩ := makesUp_of_parse accepted single
    rw [made.next?]
    exact ⟨parseExpression_iff_makesUp.mpr ⟨front, made⟩, noFunction⟩
  · obtain ⟨front, made⟩ := makesUp_of_parseExpression accepted
    exact made.position_eq

/-- The source `a + 'b' // c` ends in a comment, which does not go on behind the line end. -/
theorem parseExpression_iff_parse_comment : ∃ expr program span, parseExpression (utf8 "a + 'b' // c") = .ok expr ∧
    parse [] (utf8 "a + 'b' // c" ++ utf8 "\n;") = .ok program ∧
      program.elements = [.ofStatement (.exprStmt span expr)] := by
  have accepted : (parseExpression (utf8 "a + 'b' // c")).isOk = true := by decide +kernel
  have spelled : (Cursor.ofSource (utf8 "a + 'b' // c")).next?.map Token.spelling = some (utf8 "a") := by
    decide +kernel
  have noFunction : (Cursor.ofSource (utf8 "a + 'b' // c")).next? ≠ some (.keyword .kwFunction) := by
    intro isFunction
    rw [isFunction] at spelled
    exact absurd spelled (by decide +kernel)
  cases result : parseExpression (utf8 "a + 'b' // c") with
  | error _ =>
    rw [result] at accepted
    cases accepted
  | ok expr =>
    obtain ⟨program, span, whole, single⟩ := (parseExpression_iff_parse _ expr).1.mp ⟨result, noFunction⟩
    exact ⟨expr, program, span, rfl, whole, single⟩

example : (parseExpression (utf8 "function () \x7b\x7d")).isOk = true ∧
    (parse [] (utf8 "function () \x7b\x7d\n;")).isOk = false := by decide +kernel

end Program

end EcmaFold
