import EcmaFold.Proofs.Tree.LaidExpression

/-!
The layout of statements, one lemma for each form, and with them the layout of every well-formed tree: it is
scanned as what the slots of the tree ask for.
-/

namespace EcmaFold

open Piece (text)

/-- What an expression starts with is no trivia. -/
theorem Token.piece?_eq_none {t : Token} (starts : t.startsExpression = true) (clean : t.Clean) (rest : Bytes) :
    Trivia.piece? (t.spelling ++ rest) = none := by
  cases t with
  | number value => exact Number.piece?_eq_none (Number.read?_eq_some clean).1 rest
  | string value => rfl
  | name spelling =>
    obtain ⟨spelled, -⟩ := Option.filter_eq_some_iff.mp clean
    exact Name.piece?_eq_none (Name.read?_eq_some spelled).1 rest
  | keyword w => exact Name.piece?_eq_none (Name.read?_eq_some w.read?_spelling).1 rest
  | punct p =>
    obtain ⟨b, tail, spelled, first⟩ := p.exists_head
    rw [spelling, spelled, List.cons_append, Trivia.piece?_visible first.noBlank first.noLine, if_pos first.ascii]
    intro isSlash
    rcases first.slash isSlash with rfl | rfl <;> cases starts
  | stray _ => cases starts
  | ending => cases starts

namespace Tree

theorem marks_space_head {pieces : List Piece} {rest : Bytes} (visible : Trivia.piece? (text pieces ++ rest) = none) :
    ∀ mark ∈ (Lexeme.marks false (text (.space :: pieces) ++ rest)).head?, mark.2 = false := by
  have blank : Trivia.piece? (0x20 :: (text pieces ++ rest)) = some ⟨1, false⟩ := rfl
  have same : Lexeme.marks false (text (.space :: pieces) ++ rest) = Lexeme.marks false (text pieces ++ rest) :=
    Lexeme.marks_of_piece blank
  rw [same]
  cases bytes : text pieces ++ rest with
  | nil =>
    rintro mark ⟨⟩
    rfl
  | cons b tail =>
    rw [bytes] at visible
    rw [Lexeme.marks_of_token visible]
    rintro mark ⟨⟩
    rfl

/-- The clauses of a loop's head behind its initialisation. -/
theorem lays_clauses {cond post : Tree (.optional .sequence)} (laidCond : cond.Laid) (laidPost : post.Laid)
    (depth : Nat) {rest : Bytes} (behind : calm rest = true) :
    Lays (cond.yield ++ .punct .semicolon :: post.yield)
      (Layout.clauses (cond.layout depth) (post.layout depth)) rest false := by
  have layPost : Lays post.yield ((post.layout depth).flatMap (.space :: ·)) rest false := by
    cases post with
    | absent => exact lays_nil
    | present post =>
      have lays := laidPost.present depth Kind.noConfusion rest behind false
      rw [flatMap_layout_present]
      exact lays_space lays
  rw [Layout.clauses, List.append_assoc]
  cases cond with
  | absent => exact lays_solo rfl layPost
  | present cond =>
    have lays := laidCond.present depth Kind.noConfusion
    rw [flatMap_layout_present]
    exact lays_space ((lays _ rfl false).append (lays_solo rfl layPost))

/-- A jump and its label, which stands on the line of the word. -/
theorem lays_jump {w : Word} {label : Option Bytes} {rest : Bytes} {newline : Bool}
    (identifier : ∀ n ∈ label, Name.identifier? n = some n) :
    Lays (Slot.jump w label) (Layout.jump w label) rest newline := by
  cases label with
  | none => exact lays_word w rfl (lays_solo rfl lays_nil)
  | some name =>
    have clean : (Token.name name).Clean := identifier name rfl
    refine lays_word w rfl (lays_sameLine ?_ (lays_space (lays_name clean rfl (lays_solo rfl lays_nil))))
    refine marks_space_head ?_
    change Trivia.piece? (((Token.name name).spelling ++ _) ++ rest) = none
    rw [List.append_assoc]
    exact Token.piece?_eq_none rfl clean _

/-- An expression behind a word and a space begins on the line of the word. -/
theorem Laid.sameLine {node : Node .sequence} {slots : List Slot} {pieces : List Piece} {rest : Bytes} {depth : Nat}
    (laid : node.Laid) (proper : node.All Proper) (behind : calm (text pieces ++ rest) = true)
    (more : Lays slots pieces rest false) :
    Lays (.sameLine :: (node.yield ++ slots)) (.space :: ((node.layout depth).flatten ++ pieces)) rest false := by
  have heads : Heads .sequence node.yield _ := heads_yield (node.heads_layout proper Kind.noConfusion depth)
  obtain ⟨t, -, -, starts, clean, lead⟩ := heads
  obtain ⟨others, same⟩ := lead rfl
  refine lays_sameLine ?_ (lays_space ((laid.node depth Kind.noConfusion _ behind false).append more))
  refine marks_space_head ?_
  rw [same, List.cons_append, Piece.text_token, List.append_assoc]
  exact Token.piece?_eq_none starts clean _

section

variable {span : Span}

theorem laid_funcDecl {own : Bytes} {params : List Bytes} {body : Tree (.list .element)}
    (identifier : Name.identifier? own = some own) (identifiers : ∀ n ∈ params, Name.identifier? n = some n)
    (laid : body.Laid) : (funcDecl span own params body).Laid := by
  intro depth
  refine laid_single fun rest admits newline => lays_function ?_ identifiers ?_
  · rintro n ⟨⟩
    exact identifier
  · exact laid.list (depth + 1) Kind.noConfusion

theorem laid_block {list : Tree (.list .statement)} (laid : list.Laid) : (block span list).Laid := by
  intro depth
  have each := laid.list (depth + 1) Kind.noConfusion
  refine laid_single fun rest admits newline => ?_
  rw [← List.append_nil (Layout.braces _ _)]
  exact lays_braces each lays_nil

theorem laid_varStmt {list : Tree (.list .declaration)} (laid : list.Laid) : (varStmt span list).Laid := by
  intro depth
  have each := laid.list depth Kind.noConfusion
  refine laid_single fun rest admits newline => ?_
  rw [List.append_assoc]
  exact lays_word .kwVar rfl (lays_space (lays_commas id each rfl (lays_solo rfl lays_nil)))

theorem laid_declaration {own : Bytes} {init : Tree (.optional .assign)} (identifier : Name.identifier? own = some own)
    (laid : init.Laid) : (declaration span own init).Laid := by
  intro depth
  refine laid_single fun rest admits newline => ?_
  cases init with
  | absent => exact lays_name identifier (calmOr_of_calm admits.1) lays_nil
  | present value =>
    have lays := laid.present depth Kind.noConfusion _ admits.1 false
    rw [flatMap_slots_present, flatMap_layout_present]
    exact lays_name identifier rfl (lays_spaced (AssignOp.readsBack .set) lays)

theorem laid_exprStmt {expr : Node .sequence} (laid : expr.Laid) : (exprStmt span expr).Laid := by
  intro depth
  have lays := laid.node depth Kind.noConfusion
  exact laid_single fun rest admits newline => (lays _ rfl newline).append (lays_solo rfl lays_nil)

theorem laid_ifStmt {cond : Node .sequence} {yes : Node .statement} {no : Tree (.optional .statement)}
    (laidCond : cond.Laid) (laidYes : yes.Laid) (laidNo : no.Laid) : (ifStmt span cond yes no).Laid := by
  intro depth
  have layCond := laidCond.node depth Kind.noConfusion
  have layYes := laidYes.node depth Kind.noConfusion
  refine laid_single fun rest admits newline => ?_
  rw [List.append_assoc]
  refine lays_head layCond ?_
  cases no with
  | absent => exact (layYes _ admits.1 false).append lays_nil
  | present no =>
    have layNo := laidNo.present depth Kind.noConfusion _ admits.1 false
    rw [flatMap_slots_present, flatMap_layout_present]
    exact (layYes _ rfl false).append (lays_space (lays_word .kwElse rfl (lays_space layNo)))

theorem laid_doWhile {body : Node .statement} {cond : Node .sequence} (laidBody : body.Laid) (laidCond : cond.Laid) :
    (doWhile span body cond).Laid := by
  intro depth
  have layBody := laidBody.node depth Kind.noConfusion
  have layCond := laidCond.node depth Kind.noConfusion
  refine laid_single fun rest admits newline => ?_
  simp only [Slot.head, List.append_assoc, List.cons_append, List.nil_append]
  refine lays_word .kwDo rfl (lays_space ((layBody _ rfl false).append (lays_space (lays_word .kwWhile rfl ?_))))
  refine lays_space (lays_solo rfl ((layCond _ rfl false).append ?_))
  exact lays_solo rfl (lays_solo rfl lays_nil)

theorem laid_whileStmt {cond : Node .sequence} {body : Node .statement} (laidCond : cond.Laid) (laidBody : body.Laid) :
    (whileStmt span cond body).Laid := by
  intro depth
  have layCond := laidCond.node depth Kind.noConfusion
  have layBody := laidBody.node depth Kind.noConfusion
  exact laid_single fun rest admits newline => lays_head layCond (layBody _ admits.1 false)

theorem laid_withStmt {object : Node .sequence} {body : Node .statement} (laidObject : object.Laid)
    (laidBody : body.Laid) : (withStmt span object body).Laid := by
  intro depth
  have layObject := laidObject.node depth Kind.noConfusion
  have layBody := laidBody.node depth Kind.noConfusion
  exact laid_single fun rest admits newline => lays_head layObject (layBody _ admits.1 false)

theorem laid_labeled {label : Bytes} {body : Node .statement} (identifier : Name.identifier? label = some label)
    (laid : body.Laid) : (labeled span label body).Laid := by
  intro depth
  have lays := laid.node depth Kind.noConfusion
  refine laid_single fun rest admits newline => lays_name identifier rfl (lays_solo rfl (lays_space ?_))
  exact lays _ admits.1 false

theorem laid_returnStmt {value : Tree (.optional .sequence)} (laid : value.Laid) (proper : value.All Proper) :
    (returnStmt span value).Laid := by
  intro depth
  refine laid_single fun rest admits newline => ?_
  cases value with
  | absent => exact lays_word .kwReturn rfl (lays_solo rfl lays_nil)
  | present expr =>
    have laidExpr := laid.of_present Kind.noConfusion
    rw [flatMap_slots_present, flatMap_layout_present, List.append_assoc]
    exact lays_word .kwReturn rfl (laidExpr.sameLine proper rfl (lays_solo rfl lays_nil))

theorem laid_throwStmt {value : Node .sequence} (laid : value.Laid) (proper : value.All Proper) :
    (throwStmt span value).Laid := by
  intro depth
  refine laid_single fun rest admits newline => ?_
  rw [List.append_assoc]
  exact lays_word .kwThrow rfl (laid.sameLine proper rfl (lays_solo rfl lays_nil))

theorem laid_forStmt {init cond post : Tree (.optional .sequence)} {body : Node .statement} (laidInit : init.Laid)
    (laidCond : cond.Laid) (laidPost : post.Laid) (laidBody : body.Laid) : (forStmt span init cond post body).Laid := by
  intro depth
  have layBody := laidBody.node depth Kind.noConfusion
  refine laid_single fun rest admits newline => lays_head (fun rest behind newline => ?_) (layBody _ admits.1 false)
  have behindInit := lays_clauses laidCond laidPost depth behind
  rw [List.append_assoc]
  cases init with
  | absent => exact lays_solo rfl behindInit
  | present expr =>
    have lays := laidInit.present depth Kind.noConfusion
    exact (lays _ rfl newline).append (lays_solo rfl behindInit)

theorem laid_forVar {decls : Tree (.list .declaration)} {cond post : Tree (.optional .sequence)}
    {body : Node .statement} (laidDecls : decls.Laid) (laidCond : cond.Laid) (laidPost : post.Laid)
    (laidBody : body.Laid) : (forVar span decls cond post body).Laid := by
  intro depth
  have layBody := laidBody.node depth Kind.noConfusion
  refine laid_single fun rest admits newline => lays_head (fun rest behind newline => ?_) (layBody _ admits.1 false)
  have behindInit := lays_clauses laidCond laidPost depth behind
  have each := laidDecls.list depth Kind.noConfusion
  rw [List.append_assoc, List.append_assoc]
  exact lays_word .kwVar rfl (lays_space (lays_commas id each rfl (lays_solo rfl behindInit)))

theorem laid_forIn {into : Node .lhs} {object : Node .sequence} {body : Node .statement} (laidInto : into.Laid)
    (laidObject : object.Laid) (laidBody : body.Laid) : (forIn span into object body).Laid := by
  intro depth
  have layInto := laidInto.node depth Kind.noConfusion
  have layObject := laidObject.node depth Kind.noConfusion
  have layBody := laidBody.node depth Kind.noConfusion
  refine laid_single fun rest admits newline => lays_head (fun rest behind newline => ?_) (layBody _ admits.1 false)
  rw [List.append_assoc]
  exact (layInto _ rfl newline).append (lays_space (lays_word .kwIn rfl (lays_space (layObject _ behind false))))

theorem laid_forInVar {decl : Node .declaration} {object : Node .sequence} {body : Node .statement}
    (laidDecl : decl.Laid) (laidObject : object.Laid) (laidBody : body.Laid) : (forInVar span decl object body).Laid := by
  intro depth
  have layDecl := laidDecl.node depth Kind.noConfusion
  have layObject := laidObject.node depth Kind.noConfusion
  have layBody := laidBody.node depth Kind.noConfusion
  refine laid_single fun rest admits newline => lays_head (fun rest behind newline => ?_) (layBody _ admits.1 false)
  rw [List.append_assoc, List.append_assoc]
  refine lays_word .kwVar rfl (lays_space ((layDecl _ rfl false).append (lays_space (lays_word .kwIn rfl ?_))))
  exact lays_space (layObject _ behind false)

theorem laid_switchStmt {tag : Node .sequence} {cases trailing : Tree (.list .caseClause)}
    {fallback : Tree (.optional .defaultClause)} (laidTag : tag.Laid) (laidCases : cases.Laid)
    (laidFallback : fallback.Laid) (laidTrailing : trailing.Laid) :
    (switchStmt span tag cases fallback trailing).Laid := by
  intro depth
  have layTag := laidTag.node depth Kind.noConfusion
  have layCases := laidCases.list (depth + 1) Kind.noConfusion
  have layFallback := laidFallback.optional (depth + 1) Kind.noConfusion
  have layTrailing := laidTrailing.list (depth + 1) Kind.noConfusion
  have each := List.rel_append (List.rel_append layCases layFallback) layTrailing
  refine laid_single fun rest admits newline => ?_
  rw [List.append_assoc, List.append_assoc, ← List.append_assoc, ← List.append_assoc, ← List.flatten_append,
    ← List.flatten_append]
  exact lays_head layTag (lays_solo rfl (lays_lines each rfl (lays_newline (lays_solo rfl lays_nil))))

/-- The statements of a clause behind its colon. -/
theorem lays_clauseBody {body : Tree (.list .statement)} (laid : body.Laid) (depth : Nat) {rest : Bytes}
    (behind : calm rest = true) :
    Lays body.slots.flatten (Layout.lines (depth + 1) (body.layout (depth + 1))) rest false := by
  have each := laid.list (depth + 1) Kind.noConfusion
  rw [← List.append_nil (Tree.slots body).flatten, ← List.append_nil (Layout.lines _ _)]
  exact lays_lines each behind lays_nil

theorem laid_caseClause {value : Node .sequence} {body : Tree (.list .statement)} (laidValue : value.Laid)
    (laidBody : body.Laid) : (caseClause span value body).Laid := by
  intro depth
  have layValue := laidValue.node depth Kind.noConfusion
  refine laid_single fun rest admits newline => ?_
  have layBody := lays_clauseBody laidBody depth admits.1
  rw [List.append_assoc, List.append_assoc]
  exact lays_word .kwCase rfl (lays_space ((layValue _ rfl false).append (lays_solo rfl layBody)))

theorem laid_defaultClause {body : Tree (.list .statement)} (laid : body.Laid) : (defaultClause span body).Laid :=
  fun depth => laid_single fun _ admits _ =>
    lays_word .kwDefault rfl (lays_solo rfl (lays_clauseBody laid depth admits.1))

/-- What always runs last, behind what is tried and handled. -/
theorem lays_cleanup {cleanup : Tree (.optional .block)} (laid : cleanup.Laid) (depth : Nat) {rest : Bytes}
    (behind : calm rest = true) :
    Lays (cleanup.slots.flatMap (.word .kwFinally :: ·))
      ((cleanup.layout depth).flatMap ([.space, .word .kwFinally, .space] ++ ·)) rest false ∧
    calm (text ((cleanup.layout depth).flatMap ([.space, .word .kwFinally, .space] ++ ·)) ++ rest) = true := by
  cases cleanup with
  | absent => exact ⟨lays_nil, behind⟩
  | present cleanup =>
    have lays := laid.present depth Kind.noConfusion _ behind false
    rw [flatMap_slots_present, flatMap_layout_present]
    exact ⟨lays_space (lays_word .kwFinally rfl (lays_space lays)), rfl⟩

theorem laid_tryStmt {body : Node .block} {handler : Tree (.optional .catchClause)} {cleanup : Tree (.optional .block)}
    (laidBody : body.Laid) (laidHandler : handler.Laid) (laidCleanup : cleanup.Laid) :
    (tryStmt span body handler cleanup).Laid := by
  intro depth
  have layBody := laidBody.node depth Kind.noConfusion
  refine laid_single fun rest admits newline => ?_
  obtain ⟨layCleanup, behind⟩ := lays_cleanup laidCleanup depth admits.1
  rw [List.append_assoc, List.append_assoc]
  cases handler with
  | absent => exact lays_word .kwTry rfl (lays_space ((layBody _ behind false).append layCleanup))
  | present handler =>
    have layHandler := laidHandler.present depth Kind.noConfusion _ behind false
    rw [flatMap_layout_present]
    refine lays_word .kwTry rfl (lays_space ((layBody _ rfl false).append ?_))
    exact lays_space (layHandler.append layCleanup)

theorem laid_catchClause {param : Bytes} {body : Node .block} (identifier : Name.identifier? param = some param)
    (laid : body.Laid) : (catchClause span param body).Laid := by
  intro depth
  have lays := laid.node depth Kind.noConfusion
  refine laid_single fun rest admits newline => lays_head ?_ (lays _ admits.1 false)
  exact fun rest behind newline => lays_name identifier (calmOr_of_calm behind) lays_nil

end

/-- The layout of every well-formed tree but a program is scanned as its slots. -/
theorem laid {shape : Shape} (tree : Tree shape) (proper : tree.All Proper) (valid : tree.All ValidString) :
    tree.Laid := by
  induction tree with
  | nil => exact fun _ => .nil
  | absent => exact fun _ => .nil
  | cons node rest ihNode ihRest => exact laid_cons (ihNode proper.1 valid.1) (ihRest proper.2 valid.2)
  | present node ih => exact laid_present (ih proper valid)
  | program =>
    intro depth
    refine laid_single fun rest admits => ?_
    cases admits.1
  | funcDecl _ own params body ih => exact laid_funcDecl proper.1.1 proper.1.2 (ih proper.2 valid.2)
  | ofStatement node ih =>
    exact (ih proper valid).wrapped rfl (fun _ => rfl) fun _ admits => admits_of_kind admits.1 Kind.noConfusion
  | ofBlock node ih =>
    exact (ih proper valid).wrapped rfl (fun _ => rfl) fun _ admits => admits_of_kind admits.1 Kind.noConfusion
  | block _ list ih => exact laid_block (ih proper.2 valid.2)
  | varStmt _ list ih => exact laid_varStmt (ih proper.2 valid.2)
  | declaration _ own init ih => exact laid_declaration proper.1 (ih proper.2 valid.2)
  | emptyStmt _ => exact fun _ => laid_single fun rest admits newline => lays_solo rfl lays_nil
  | exprStmt _ expr ih => exact laid_exprStmt (ih proper.2 valid.2)
  | ifStmt _ cond yes no ihCond ihYes ihNo =>
    exact laid_ifStmt (ihCond proper.2.1 valid.2.1) (ihYes proper.2.2.1 valid.2.2.1) (ihNo proper.2.2.2 valid.2.2.2)
  | doWhile _ body cond ihBody ihCond =>
    exact laid_doWhile (ihBody proper.2.1 valid.2.1) (ihCond proper.2.2 valid.2.2)
  | whileStmt _ cond body ihCond ihBody =>
    exact laid_whileStmt (ihCond proper.2.1 valid.2.1) (ihBody proper.2.2 valid.2.2)
  | withStmt _ object body ihObject ihBody =>
    exact laid_withStmt (ihObject proper.2.1 valid.2.1) (ihBody proper.2.2 valid.2.2)
  | labeled _ label body ih => exact laid_labeled proper.1 (ih proper.2 valid.2)
  | continueStmt _ label => exact fun _ => laid_single fun rest admits newline => lays_jump proper
  | breakStmt _ label => exact fun _ => laid_single fun rest admits newline => lays_jump proper
  | returnStmt _ value ih => exact laid_returnStmt (ih proper.2 valid.2) proper.2
  | throwStmt _ value ih => exact laid_throwStmt (ih proper.2 valid.2) proper.2
  | debugger _ =>
    exact fun _ => laid_single fun rest admits newline => lays_word .kwDebugger rfl (lays_solo rfl lays_nil)
  | forStmt _ init cond post body ihInit ihCond ihPost ihBody =>
    exact laid_forStmt (ihInit proper.2.1 valid.2.1) (ihCond proper.2.2.1 valid.2.2.1)
      (ihPost proper.2.2.2.1 valid.2.2.2.1) (ihBody proper.2.2.2.2 valid.2.2.2.2)
  | forVar _ decls cond post body ihDecls ihCond ihPost ihBody =>
    exact laid_forVar (ihDecls proper.2.1 valid.2.1) (ihCond proper.2.2.1 valid.2.2.1)
      (ihPost proper.2.2.2.1 valid.2.2.2.1) (ihBody proper.2.2.2.2 valid.2.2.2.2)
  | forIn _ into object body ihInto ihObject ihBody =>
    exact laid_forIn (ihInto proper.2.1 valid.2.1) (ihObject proper.2.2.1 valid.2.2.1)
      (ihBody proper.2.2.2 valid.2.2.2)
  | forInVar _ decl object body ihDecl ihObject ihBody =>
    exact laid_forInVar (ihDecl proper.2.1 valid.2.1) (ihObject proper.2.2.1 valid.2.2.1)
      (ihBody proper.2.2.2 valid.2.2.2)
  | switchStmt _ tag cases fallback trailing ihTag ihCases ihFallback ihTrailing =>
    exact laid_switchStmt (ihTag proper.2.1 valid.2.1) (ihCases proper.2.2.1 valid.2.2.1)
      (ihFallback proper.2.2.2.1 valid.2.2.2.1) (ihTrailing proper.2.2.2.2 valid.2.2.2.2)
  | caseClause _ value body ihValue ihBody =>
    exact laid_caseClause (ihValue proper.2.1 valid.2.1) (ihBody proper.2.2 valid.2.2)
  | defaultClause _ body ih => exact laid_defaultClause (ih proper.2 valid.2)
  | tryStmt _ body handler cleanup ihBody ihHandler ihCleanup =>
    exact laid_tryStmt (ihBody proper.2.1 valid.2.1) (ihHandler proper.2.2.1 valid.2.2.1)
      (ihCleanup proper.2.2.2 valid.2.2.2)
  | catchClause _ param body ih => exact laid_catchClause proper.1 (ih proper.2 valid.2)
  | sequence _ list ih => exact laid_sequence (ih proper.2 valid.2) proper.1
  | assign _ targets value ihTargets ihValue =>
    exact laid_assign (ihTargets proper.2.1 valid.2.1) (ihValue proper.2.2 valid.2.2)
  | target node op ih => exact laid_target op (ih proper valid)
  | plain _ value ih =>
    exact (ih proper.2 valid.2).wrapped rfl (fun _ => rfl) fun _ admits => admits_of_kind admits.1 Kind.noConfusion
  | ternary _ test yes no ihTest ihYes ihNo =>
    exact laid_ternary (ihTest proper.2.1 valid.2.1) (ihYes proper.2.2.1 valid.2.2.1) (ihNo proper.2.2.2 valid.2.2.2)
  | level _ tier first operations ihFirst ihOperations =>
    exact laid_level (ihFirst proper.2.1 valid.2.1) (ihOperations proper.2.2 valid.2.2)
  | operation tier op offset node ih => exact laid_operation op offset (ih proper valid)
  | unary _ ops operand ih => exact laid_unary ops (ih proper.2 valid.2) proper.2
  | update _ operand op ih => exact laid_update op (ih proper.2 valid.2)
  | call _ callee args modifiers ihCallee ihArgs ihModifiers =>
    exact laid_call (ihCallee proper.2.1 valid.2.1) (ihArgs proper.2.2.1 valid.2.2.1)
      (ihModifiers proper.2.2.2 valid.2.2.2)
  | newExpr _ count object ih => exact laid_newExpr count (ih proper.2 valid.2)
  | member _ object modifiers ihObject ihModifiers =>
    exact laid_member (ihObject proper.2.1 valid.2.1) (ihModifiers proper.2.2 valid.2.2)
  | ofInstantiation node ih =>
    exact (ih proper valid).wrapped rfl (fun _ => rfl) fun _ admits =>
      admits_of_kind (calmOr_point admits.1) Kind.noConfusion
  | instantiation _ object args ihObject ihArgs =>
    exact laid_instantiation (ihObject proper.2.1 valid.2.1) (ihArgs proper.2.2 valid.2.2)
  | arguments _ list ih => exact laid_arguments (ih proper.2 valid.2)
  | ofArguments node ih =>
    exact (ih proper valid).wrapped rfl (fun _ => rfl) fun _ admits => admits_of_kind admits.1 Kind.noConfusion
  | index _ expr ih => exact laid_index (ih proper.2 valid.2)
  | property _ own => exact laid_property proper
  | thisExpr _ => exact fun _ => laid_single fun rest admits newline => lays_word .kwThis admits.1 lays_nil
  | ident _ own => exact fun _ => laid_single fun rest admits newline => lays_name proper admits.1 lays_nil
  | nullLit _ => exact fun _ => laid_single fun rest admits newline => lays_word .kwNull admits.1 lays_nil
  | boolLit _ value => exact fun _ => laid_single fun rest admits newline => lays_word _ admits.1 lays_nil
  | numberLit _ value => exact laid_numberLit proper
  | stringLit _ value =>
    exact fun _ => laid_single fun rest admits newline => lays_token (Token.string_readsBack valid _) lays_nil
  | arrayLit _ elements ih => exact laid_arrayLit (ih proper.2 valid.2)
  | paren _ expr ih => exact laid_paren (ih proper.2 valid.2)
  | funcExpr _ own params body ih => exact laid_funcExpr proper.1.1 proper.1.2 (ih proper.2 valid.2)
  | instantiated node ih =>
    exact (ih proper valid).wrapped rfl (fun _ => rfl) fun _ admits => admits_of_kind admits.1 Kind.noConfusion

end Tree

end EcmaFold
