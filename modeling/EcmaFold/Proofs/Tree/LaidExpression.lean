import EcmaFold.Proofs.Tree.Laid

/-!
The layout of expressions: one lemma for each form, from what the layout of its parts is scanned as.
-/

namespace EcmaFold

open Piece (text)

/-- What a left-hand side starts with does not join with an operator in front of it. -/
theorem Token.head_of_startsLhs {t : Token} (starts : t.startsLhs = true) (clean : t.Clean) (rest : Bytes) :
    ∀ b ∈ (t.spelling ++ rest).head?, b ≠ 0x3D ∧ b ≠ 0x2B ∧ b ≠ 0x2D := by
  cases t with
  | number value =>
    obtain ⟨b, tail, spelled, first⟩ := (Number.read?_eq_some clean).1.exists_head
    have table : ∀ b : UInt8, Bytes.isDigit b = true ∨ b = 0x2E → b ≠ 0x3D ∧ b ≠ 0x2B ∧ b ≠ 0x2D := by
      refine Bytes.forall_byte ?_
      decide +kernel
    rw [spelling, spelled]
    rintro _ ⟨⟩
    exact table b (first.imp_right And.left)
  | string value =>
    rintro _ ⟨⟩
    decide
  | name spelling =>
    obtain ⟨spelled, -⟩ := Option.filter_eq_some_iff.mp clean
    exact fun b next => (Name.head_of_spelling (Name.read?_eq_some spelled).1 b next).2
  | keyword w => exact fun b next => (Name.head_of_spelling (Name.read?_eq_some w.read?_spelling).1 b next).2
  | punct p =>
    cases p with
    | lparen =>
      rintro _ ⟨⟩
      decide
    | lbracket =>
      rintro _ ⟨⟩
      decide
    | _ => cases starts
  | stray _ => cases starts
  | ending => cases starts

theorem AssignOp.readsBack (op : AssignOp) {bytes : Bytes} (behind : calm bytes = true) : op.token.ReadsBack bytes := by
  cases op <;> exact Token.punct_readsBack (Punct.not_mem_joins behind)

theorem BinaryOp.readsBack (op : BinaryOp) {bytes : Bytes} (behind : calm bytes = true) : op.token.ReadsBack bytes := by
  have stops := goesOn_of_calmOr (calmOr_of_calm behind)
  cases op <;>
    first
    | exact Token.punct_readsBack (Punct.not_mem_joins behind)
    | exact Token.keyword_readsBack _ stops

theorem UpdateOp.readsBack (op : UpdateOp) (bytes : Bytes) : op.token.ReadsBack bytes := by
  have joins : Punct.inc.joins = [] ∧ Punct.dec.joins = [] := by decide +kernel
  cases op <;> refine Token.punct_readsBack fun b _ => ?_ <;> simp [joins]

/-- A unary operator is read back unless it would run into what follows. -/
theorem UnaryOp.readsBack {op : UnaryOp} {bytes : Bytes} (plain : op.isWord = false)
    (apart : ∀ b ∈ bytes.head?, b ≠ 0x3D ∧ (op = .plus → b ≠ 0x2B) ∧ (op = .minus → b ≠ 0x2D)) :
    op.token.ReadsBack bytes := by
  have joins : Punct.inc.joins = [] ∧ Punct.dec.joins = [] ∧ Punct.bitNot.joins = [] ∧
      (∀ b ∈ Punct.add.joins, b = 0x3D ∨ b = 0x2B) ∧ (∀ b ∈ Punct.sub.joins, b = 0x3D ∨ b = 0x2D) ∧
      ∀ b ∈ Punct.not.joins, b = 0x3D := by
    decide +kernel
  cases op with
  | delete => cases plain
  | void => cases plain
  | typeof => cases plain
  | inc =>
    refine Token.punct_readsBack fun b _ => ?_
    simp [joins.1]
  | dec =>
    refine Token.punct_readsBack fun b _ => ?_
    simp [joins.2.1]
  | bitNot =>
    refine Token.punct_readsBack fun b _ => ?_
    simp [joins.2.2.1]
  | plus =>
    refine Token.punct_readsBack fun b next member => ?_
    have other := apart b next
    rcases joins.2.2.2.1 b member with same | same
    · exact other.1 same
    · exact other.2.1 rfl same
  | minus =>
    refine Token.punct_readsBack fun b next member => ?_
    have other := apart b next
    rcases joins.2.2.2.2.1 b member with same | same
    · exact other.1 same
    · exact other.2.2 rfl same
  | not =>
    refine Token.punct_readsBack fun b next member => ?_
    exact (apart b next).1 (joins.2.2.2.2.2 b member)

theorem UnaryOp.readsBack_calm (op : UnaryOp) {bytes : Bytes} (behind : calm bytes = true) :
    op.token.ReadsBack bytes := by
  have stops := goesOn_of_calmOr (calmOr_of_calm behind)
  cases op <;>
    first
    | exact Token.punct_readsBack (Punct.not_mem_joins behind)
    | exact Token.keyword_readsBack _ stops

/-- The spelling of an operator does not run into one that does not merge with it. -/
theorem UnaryOp.head_of_next {op next : UnaryOp} (plain : next.isWord = false)
    (apart : Layout.wouldMerge op next = false) (bytes : Bytes) : ∀ b ∈ (next.token.spelling ++ bytes).head?,
      b ≠ 0x3D ∧ (op = .plus → b ≠ 0x2B) ∧ (op = .minus → b ≠ 0x2D) := by
  cases next with
  | delete => cases plain
  | void => cases plain
  | typeof => cases plain
  | _ =>
    rintro _ ⟨⟩
    cases op <;> first | decide | cases apart

/-- Unary operators in front of what starts a left-hand side. -/
theorem lays_unaryOps {ops : List UnaryOp} {slots : List Slot} {pieces more : List Piece} {rest : Bytes} {t : Token}
    (lead : pieces = .token t :: more) (starts : t.startsLhs = true) (clean : t.Clean)
    (operand : ∀ newline, Lays slots pieces rest newline) (newline : Bool) :
    Lays ((ops.map fun op => .token op.token) ++ slots) (Layout.unaryOps ops ++ pieces) rest newline := by
  induction ops generalizing newline with
  | nil => exact operand newline
  | cons op ops ih =>
    cases apart : op.isWord || ops.head?.any fun next => Layout.wouldMerge op next || next.isWord with
    | true =>
      have spaced : Layout.unaryOps (op :: ops) = .token op.token :: .space :: Layout.unaryOps ops := by
        rw [Layout.unaryOps, apart]
        rfl
      rw [spaced]
      exact lays_token (op.readsBack_calm rfl) (lays_space (ih false))
    | false =>
      have close : Layout.unaryOps (op :: ops) = .token op.token :: Layout.unaryOps ops := by
        rw [Layout.unaryOps, apart]
        rfl
      obtain ⟨plain, next⟩ := Bool.or_eq_false_iff.mp apart
      rw [close, List.cons_append]
      refine lays_token (UnaryOp.readsBack plain fun b first => ?_) (ih false)
      cases ops with
      | nil =>
        change b ∈ (text pieces ++ rest).head? at first
        rw [lead, Piece.text_token, List.append_assoc] at first
        have other := Token.head_of_startsLhs starts clean _ b first
        exact ⟨other.1, fun _ => other.2.1, fun _ => other.2.2⟩
      | cons following ops =>
        obtain ⟨noMerge, noWord⟩ := Bool.or_eq_false_iff.mp next
        obtain ⟨more, same⟩ : ∃ more, Layout.unaryOps (following :: ops) = .token following.token :: more :=
          ⟨_, rfl⟩
        rw [same, List.cons_append, Piece.text_token, List.append_assoc] at first
        exact UnaryOp.head_of_next noWord noMerge _ b first

theorem lays_news (count : Nat) {slots : List Slot} {pieces : List Piece} {rest : Bytes}
    (object : ∀ newline, Lays slots pieces rest newline) (newline : Bool) :
    Lays (List.replicate count (.word .kwNew) ++ slots)
      ((List.replicate count [.word .kwNew, .space]).flatten ++ pieces) rest newline := by
  induction count generalizing newline with
  | zero => exact object newline
  | succ count ih => exact lays_word .kwNew rfl (lays_space (ih false))

namespace Tree

/-- The text of a modifier begins with a bracket, or with a point if it is a property. -/
theorem exists_modifier_text {calls : Bool} (node : Node (.modifier calls)) (depth : Nat) : ∃ b tail,
    text (node.layout depth).flatten = b :: tail ∧ (b = 0x28 ∨ b = 0x5B ∨
      b = 0x2E ∧ ∀ rest : Tree (.list (.modifier calls)), (cons node rest).startsWithProperty = true) := by
  cases node with
  | ofArguments args =>
    cases args with
    | arguments _ list => exact ⟨_, _, rfl, .inl rfl⟩
  | index _ expr => exact ⟨_, _, rfl, .inr (.inl rfl)⟩
  | property _ own => exact ⟨_, _, rfl, .inr (.inr ⟨rfl, fun _ => rfl⟩)⟩

/-- If every node of a kind begins with bytes of a class, each part of a list does. -/
theorem starts_layout {kind : Kind} {F : Bytes → Bool} {depth : Nat}
    (each : ∀ (node : Node kind) (rest : Bytes), F (text (node.layout depth).flatten ++ rest) = true)
    (list : Tree (.list kind)) : ∀ part ∈ list.layout depth, ∀ rest, F (text part ++ rest) = true := by
  obtain ⟨items, rfl⟩ := exists_ofList list
  induction items with
  | nil => exact List.forall_mem_nil _
  | cons item items ih =>
    rw [ofList, layout_cons, List.forall_mem_cons]
    exact ⟨each item, ih⟩

/-- An operation begins with a space. -/
theorem operation_starts {tier : Tier} (node : Node (.operation tier)) (depth : Nat) (rest : Bytes) :
    calm (text (node.layout depth).flatten ++ rest) = true := by
  cases node
  rfl

/-- A modifier begins with a bracket or a point. -/
theorem modifier_starts {calls : Bool} (node : Node (.modifier calls)) (depth : Nat) (rest : Bytes) :
    calmOr [0x2B, 0x2D, 0x2E] (text (node.layout depth).flatten ++ rest) = true := by
  obtain ⟨b, tail, same, rfl | rfl | ⟨rfl, -⟩⟩ := exists_modifier_text node depth
  · rw [same]
    rfl
  · rw [same]
    rfl
  · rw [same]
    rfl

/-- Behind an object that takes no point, or in front of no property, no space is needed. -/
theorem member_admits {object : Node .primary} {modifiers : Tree (.list (.modifier false))} {rest : Bytes} {depth : Nat}
    (close : (object.needsSpace && modifiers.startsWithProperty) = false) (behind : calmOr [0x2B, 0x2D] rest = true) :
    object.Admits (text (modifiers.layout depth).flatten ++ rest) := by
  have heads := starts_layout (fun node => modifier_starts node depth) modifiers
  have more : calmOr [0x2B, 0x2D, 0x2E] (text [] ++ rest) = true := calmOr_point behind
  have starts := starts_flatten heads more
  rw [List.append_nil] at starts
  refine ⟨starts, fun needs => ?_⟩
  rw [needs, Bool.true_and] at close
  cases modifiers with
  | nil =>
    intro isPoint
    obtain ⟨tail, rfl⟩ := List.head?_eq_some_iff.mp (show rest.head? = some 0x2E from isPoint)
    cases behind
  | cons first others =>
    obtain ⟨b, tail, same, first⟩ := exists_modifier_text first depth
    rw [layout_cons, List.flatten_cons, Piece.text_append, same]
    rintro ⟨⟩
    rcases first with isParen | isBracket | ⟨-, isProperty⟩
    · cases isParen
    · cases isBracket
    · rw [isProperty others] at close
      cases close

section

variable {span : Span}

theorem laid_sequence {list : Tree (.list .assign)} (laid : list.Laid) (nonempty : list.isNil = false) :
    (sequence span list).Laid := by
  intro depth
  have each := laid.list depth Kind.noConfusion
  refine laid_single fun rest admits newline => ?_
  rw [← List.append_nil (Slot.separated _ _), ← List.append_nil (Layout.commas _)]
  refine lays_commas id each admits.1 ?_
  cases list with
  | nil => cases nonempty
  | cons first others =>
    rw [layout_cons, List.isEmpty_cons, Bool.and_false]
    exact lays_nil

theorem laid_assign {targets : Tree (.list .target)} {value : Node .cond} (laidTargets : targets.Laid)
    (laidValue : value.Laid) : (assign span targets value).Laid := by
  intro depth
  have each := laidTargets.list depth Kind.noConfusion
  have lays := laidValue.node depth Kind.noConfusion
  refine laid_single fun rest admits newline => ?_
  exact lays_flatten each (fun _ _ _ => rfl) rfl (lays _ admits.1 _)

theorem laid_target {node : Node .lhs} (op : AssignOp) (laid : node.Laid) : (target node op).Laid := by
  intro depth
  have lays := laid.node depth Kind.noConfusion
  refine laid_single fun rest admits newline => (lays _ rfl newline).append ?_
  exact lays_spaced op.readsBack lays_nil

theorem laid_ternary {test : Node (.tier .logicalOr)} {yes no : Node .assign} (laidTest : test.Laid)
    (laidYes : yes.Laid) (laidNo : no.Laid) : (ternary span test yes no).Laid := by
  intro depth
  have layTest := laidTest.node depth Kind.noConfusion
  have layYes := laidYes.node depth Kind.noConfusion
  have layNo := laidNo.node depth Kind.noConfusion
  refine laid_single fun rest admits newline => ?_
  rw [List.append_assoc, List.append_assoc, List.append_assoc]
  refine (layTest _ rfl newline).append (lays_space (lays_solo rfl (lays_space ((layYes _ rfl false).append ?_))))
  exact lays_space (lays_solo rfl (lays_space (layNo _ admits.1 false)))

/-- An operand of a tier may stand before what is calm. -/
theorem Laid.operand {tier : Tier} {node : Node tier.operand} (laid : node.Laid) (depth : Nat) :
    LaysBefore calm node.yield (node.layout depth).flatten := by
  have notPrimary : tier.operand ≠ .primary := by cases tier <;> exact Kind.noConfusion
  have admitsCalm : tier.operand.admits = calm := by cases tier <;> rfl
  rw [← admitsCalm]
  exact laid.node depth notPrimary

theorem laid_level {tier : Tier} {first : Node tier.operand} {operations : Tree (.list (.operation tier))}
    (laidFirst : first.Laid) (laidOperations : operations.Laid) : (level span tier first operations).Laid := by
  intro depth
  have each := laidOperations.list depth Kind.noConfusion
  have heads := starts_layout (fun node => operation_starts node depth) operations
  refine laid_single fun rest admits newline => ?_
  have behind : calm (text [] ++ rest) = true := admits.1
  rw [← List.append_nil (Tree.slots operations).flatten, ← List.append_nil (Tree.layout operations depth).flatten]
  refine (laidFirst.operand depth _ (starts_flatten heads behind) newline).append ?_
  exact lays_flatten each heads behind lays_nil

theorem laid_operation {tier : Tier} (op : tier.Op) (offset : Nat) {node : Node tier.operand} (laid : node.Laid) :
    (operation tier op offset node).Laid := fun depth =>
  laid_single fun _ admits _ => lays_spaced op.1.readsBack (laid.operand depth _ admits.1 false)

theorem laid_unary (ops : List UnaryOp) {operand : Node .update} (laid : operand.Laid) (proper : operand.All Proper) :
    (unary span ops operand).Laid := by
  intro depth
  have lays := laid.node depth Kind.noConfusion
  have heads : Heads .update operand.yield _ := heads_yield (operand.heads_layout proper Kind.noConfusion depth)
  obtain ⟨t, -, -, starts, clean, lead⟩ := heads
  obtain ⟨more, same⟩ := lead rfl
  exact laid_single fun rest admits newline => lays_unaryOps same starts clean (lays _ admits.1) newline

theorem laid_update {operand : Node .lhs} (op : Option UpdateOp) (laid : operand.Laid) :
    (update span operand op).Laid := by
  intro depth
  have lays := laid.node depth Kind.noConfusion
  refine laid_single fun rest admits newline => ?_
  cases op with
  | none => exact (lays _ (calmOr_of_calm admits.1) newline).append lays_nil
  | some op =>
    have sign : calmOr [0x2B, 0x2D] (text [.token op.token] ++ rest) = true := by cases op <;> rfl
    refine (lays _ sign newline).append (lays_sameLine ?_ (lays_token (op.readsBack _) lays_nil))
    rw [Piece.text_token, List.append_assoc, Lexeme.marks_readsBack (op.readsBack _)]
    rintro mark ⟨⟩
    rfl

/-- Arguments begin with a parenthesis, which may stand behind whatever is called. -/
theorem arguments_starts (args : Node .arguments) (depth : Nat) (rest : Bytes) :
    calmOr [0x2B, 0x2D] (text (args.layout depth).flatten ++ rest) = true := by
  cases args
  rfl

theorem laid_call {callee : Node .member} {args : Node .arguments} {modifiers : Tree (.list (.modifier true))}
    (laidCallee : callee.Laid) (laidArgs : args.Laid) (laidModifiers : modifiers.Laid) :
    (call span callee args modifiers).Laid := by
  intro depth
  have layCallee := laidCallee.node depth Kind.noConfusion
  have layArgs := laidArgs.node depth Kind.noConfusion
  have each := laidModifiers.list depth Kind.noConfusion
  have heads := starts_layout (fun node => modifier_starts node depth) modifiers
  refine laid_single fun rest admits newline => ?_
  have behind : calmOr [0x2B, 0x2D, 0x2E] (text [] ++ rest) = true := calmOr_point admits.1
  rw [List.append_assoc, ← List.append_nil (Tree.slots modifiers).flatten,
    ← List.append_nil (Tree.layout modifiers depth).flatten]
  refine (layCallee _ ?_ newline).append ((layArgs _ (starts_flatten heads behind) false).append ?_)
  · rw [Piece.text_append, List.append_assoc]
    exact arguments_starts args depth _
  · exact lays_flatten each heads behind lays_nil

theorem laid_newExpr (count : Nat) {object : Node .member} (laid : object.Laid) : (newExpr span count object).Laid := by
  intro depth
  have lays := laid.node depth Kind.noConfusion
  exact laid_single fun rest admits newline => lays_news count (lays _ admits.1) newline

theorem laid_member {object : Node .primary} {modifiers : Tree (.list (.modifier false))} (laidObject : object.Laid)
    (laidModifiers : modifiers.Laid) : (member span object modifiers).Laid := by
  intro depth
  have each := laidModifiers.list depth Kind.noConfusion
  have heads := starts_layout (fun node => modifier_starts node depth) modifiers
  refine laid_single fun rest admits newline => ?_
  have behind : calmOr [0x2B, 0x2D, 0x2E] rest = true := calmOr_point admits.1
  have layModifiers := @lays_flatten _ _ [] [] rest false _ each heads behind lays_nil
  rw [List.append_nil, List.append_nil] at layModifiers
  rw [List.append_assoc]
  cases spaced : object.needsSpace && modifiers.startsWithProperty with
  | true =>
    have admitsSpace : object.Admits (text (.space :: (modifiers.layout depth).flatten) ++ rest) := by
      refine ⟨rfl, fun _ isPoint => ?_⟩
      cases isPoint
    exact (laidObject.before depth admitsSpace newline).append (lays_space layModifiers)
  | false => exact (laidObject.before depth (member_admits spaced admits.1) newline).append layModifiers

theorem laid_instantiation {object : Node .member} {args : Node .arguments} (laidObject : object.Laid)
    (laidArgs : args.Laid) : (instantiation span object args).Laid := by
  intro depth
  have layObject := laidObject.node depth Kind.noConfusion
  have layArgs := laidArgs.node depth Kind.noConfusion
  refine laid_single fun rest admits newline => ?_
  have opens := arguments_starts args depth rest
  rw [List.append_assoc]
  exact lays_word .kwNew rfl (lays_space ((layObject _ opens false).append (layArgs _ admits.1 false)))

theorem laid_arguments {list : Tree (.list .assign)} (laid : list.Laid) : (arguments span list).Laid := by
  intro depth
  have each := laid.list depth Kind.noConfusion
  refine laid_single fun rest admits newline => ?_
  rw [List.append_assoc]
  exact lays_solo rfl (lays_commas id each rfl (lays_solo rfl lays_nil))

theorem laid_index {calls : Bool} {expr : Node .sequence} (laid : expr.Laid) :
    (index span expr : Node (.modifier calls)).Laid := by
  intro depth
  have lays := laid.node depth Kind.noConfusion
  refine laid_single fun rest admits newline => ?_
  rw [List.append_assoc]
  exact lays_solo rfl ((lays _ rfl false).append (lays_solo rfl lays_nil))

theorem laid_property {calls : Bool} {own : Bytes} (isName : Name.read? own = some own) :
    (property span own : Node (.modifier calls)).Laid := by
  intro depth
  refine laid_single fun rest admits newline => lays_token (Token.punct_readsBack ?_) (lays_token ?_ lays_nil)
  · have digits : ∀ b ∈ Punct.dot.joins, Bytes.isDigit b = true := by decide +kernel
    intro b first member
    rw [Piece.text_token, Token.spelling_ofName, List.append_assoc] at first
    have noDigit := (Name.head_of_spelling (Name.read?_eq_some isName).1 b first).1
    rw [digits b member] at noDigit
    cases noDigit
  · exact Token.ofName_readsBack isName (goesOn_of_calmOr admits.1)

/-- A number is read back in front of everything but a point that it would take. -/
theorem laid_numberLit {value : Number} (clean : Number.read? value.raw = some value) :
    (numberLit span value).Laid := by
  intro depth
  refine laid_single fun rest admits newline => lays_token ?_ lays_nil
  refine Token.number_readsBack clean (goesOn_of_calmOr admits.1) fun takes b next => ?_
  rintro rfl
  exact admits.2 takes next

theorem laid_arrayLit {elements : Tree (.list .assign)} (laid : elements.Laid) : (arrayLit span elements).Laid := by
  intro depth
  have each := laid.list depth Kind.noConfusion
  refine laid_single fun rest admits newline => ?_
  rw [List.append_assoc]
  refine lays_solo rfl (lays_elision (lays_commas lays_elision each rfl (lays_elision ?_)))
  exact lays_solo rfl lays_nil

theorem laid_paren {expr : Node .sequence} (laid : expr.Laid) : (paren span expr).Laid := by
  intro depth
  have lays := laid.node depth Kind.noConfusion
  refine laid_single fun rest admits newline => ?_
  rw [List.append_assoc]
  exact lays_solo rfl ((lays _ rfl false).append (lays_solo rfl lays_nil))

theorem laid_funcExpr {own : Option Bytes} {params : List Bytes} {body : Tree (.list .element)}
    (identifier : ∀ n ∈ own, Name.identifier? n = some n) (identifiers : ∀ n ∈ params, Name.identifier? n = some n)
    (laid : body.Laid) : (funcExpr span own params body).Laid := fun depth =>
  laid_single fun _ _ _ => lays_function identifier identifiers (laid.list (depth + 1) Kind.noConfusion)

end

end Tree

end EcmaFold
