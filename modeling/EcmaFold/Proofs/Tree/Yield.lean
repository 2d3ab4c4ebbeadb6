import EcmaFold.Proofs.Lexer.Sequence
import EcmaFold.Proofs.Tree.Erased

/-!
What a tree stands for in a source: its tokens in order, with the places where the grammar asks for more or
allows more than a token. Between two tokens that have to stand on one line there is no line end, and commas
that stand for nothing may be written in an array.
-/

namespace EcmaFold

/-- A place in the yield of a tree. -/
inductive Slot where
  | token (t : Token)
  /-- No line may end before the next token. -/
  | sameLine
  /-- Any number of commas. -/
  | elision

namespace Slot

def punct (p : Punct) : Slot := token (.punct p)

def word (w : Word) : Slot := token (.keyword w)

def name (spelling : Bytes) : Slot := token (.name spelling)

def token? : Slot → Option Token
  | token t => some t
  | _ => none

/-- Parts with a separator between two of them. -/
def separated (separator : List Slot) : List (List Slot) → List Slot
  | [] => []
  | [part] => part
  | part :: rest => part ++ (separator ++ separated separator rest)

/-- The name, the parameters and the body of a function. -/
def function (own : Option Bytes) (params : List Bytes) (body : List Slot) : List Slot :=
  word .kwFunction :: (own.toList.map name ++ punct .lparen ::
    (separated [punct .comma] (params.map fun n => [name n]) ++
      punct .rparen :: punct .lbrace :: (body ++ [punct .rbrace])))

/-- A jump with an optional label. -/
def jump (w : Word) (label : Option Bytes) : List Slot :=
  word w :: (label.toList.flatMap (fun n => [sameLine, name n]) ++ [punct .semicolon])

/-- An expression in the parentheses of a statement's head. -/
def head (w : Word) (expr : List Slot) : List Slot := word w :: punct .lparen :: (expr ++ [punct .rparen])

theorem separated_cons (separator first : List Slot) (rest : List (List Slot)) :
    separated separator (first :: rest) = first ++ (rest.map (separator ++ ·)).flatten := by
  induction rest generalizing first with
  | nil => simp [separated]
  | cons second rest ih => simp [separated, ih]

end Slot

namespace Tree

open Slot

/-- The slots of the nodes of a tree: one list for a node, and one for each node of a list. -/
def slots : {shape : Shape} → Tree shape → List (List Slot)
  | _, nil => []
  | _, cons node rest => node.slots ++ rest.slots
  | _, absent => []
  | _, present node => node.slots
  | _, program _ elements => [elements.slots.flatten]
  | _, funcDecl _ own params body => [function (some own) params body.slots.flatten]
  | _, ofStatement node => node.slots
  | _, ofBlock node => node.slots
  | _, block _ list => [punct .lbrace :: (list.slots.flatten ++ [punct .rbrace])]
  | _, varStmt _ list => [word .kwVar :: (separated [punct .comma] list.slots ++ [punct .semicolon])]
  | _, declaration _ own init => [name own :: init.slots.flatMap (punct .assign :: ·)]
  | _, emptyStmt _ => [[punct .semicolon]]
  | _, exprStmt _ expr => [expr.slots.flatten ++ [punct .semicolon]]
  | _, ifStmt _ cond yes no =>
    [head .kwIf cond.slots.flatten ++ (yes.slots.flatten ++ no.slots.flatMap (word .kwElse :: ·))]
  | _, doWhile _ body cond =>
    [word .kwDo :: (body.slots.flatten ++ (head .kwWhile cond.slots.flatten ++ [punct .semicolon]))]
  | _, whileStmt _ cond body => [head .kwWhile cond.slots.flatten ++ body.slots.flatten]
  | _, forStmt _ init cond post body =>
    [head .kwFor (init.slots.flatten ++ punct .semicolon ::
      (cond.slots.flatten ++ punct .semicolon :: post.slots.flatten)) ++ body.slots.flatten]
  | _, forVar _ decls cond post body =>
    [head .kwFor (word .kwVar :: (separated [punct .comma] decls.slots ++ punct .semicolon ::
      (cond.slots.flatten ++ punct .semicolon :: post.slots.flatten))) ++ body.slots.flatten]
  | _, forIn _ into object body =>
    [head .kwFor (into.slots.flatten ++ word .kwIn :: object.slots.flatten) ++ body.slots.flatten]
  | _, forInVar _ decl object body =>
    [head .kwFor (word .kwVar :: (decl.slots.flatten ++ word .kwIn :: object.slots.flatten)) ++
      body.slots.flatten]
  | _, continueStmt _ label => [jump .kwContinue label]
  | _, breakStmt _ label => [jump .kwBreak label]
  | _, returnStmt _ value =>
    [word .kwReturn :: (value.slots.flatMap (sameLine :: ·) ++ [punct .semicolon])]
  | _, withStmt _ object body => [head .kwWith object.slots.flatten ++ body.slots.flatten]
  | _, labeled _ label body => [name label :: punct .colon :: body.slots.flatten]
  | _, switchStmt _ tag cases fallback trailing =>
    [head .kwSwitch tag.slots.flatten ++ punct .lbrace ::
      (cases.slots.flatten ++ (fallback.slots.flatten ++ (trailing.slots.flatten ++ [punct .rbrace])))]
  | _, caseClause _ value body =>
    [word .kwCase :: (value.slots.flatten ++ punct .colon :: body.slots.flatten)]
  | _, defaultClause _ body => [word .kwDefault :: punct .colon :: body.slots.flatten]
  | _, throwStmt _ value => [word .kwThrow :: sameLine :: (value.slots.flatten ++ [punct .semicolon])]
  | _, tryStmt _ body handler cleanup =>
    [word .kwTry :: (body.slots.flatten ++ (handler.slots.flatten ++
      cleanup.slots.flatMap (word .kwFinally :: ·)))]
  | _, catchClause _ param body => [head .kwCatch [name param] ++ body.slots.flatten]
  | _, debugger _ => [[word .kwDebugger, punct .semicolon]]
  | _, sequence _ list => [separated [punct .comma] list.slots]
  | _, assign _ targets value => [targets.slots.flatten ++ value.slots.flatten]
  | _, target node op => [node.slots.flatten ++ [token op.token]]
  | _, plain _ value => value.slots
  | _, ternary _ test yes no =>
    [test.slots.flatten ++ punct .question :: (yes.slots.flatten ++ punct .colon :: no.slots.flatten)]
  | _, level _ _ first operations => [first.slots.flatten ++ operations.slots.flatten]
  | _, operation _ op _ node => [token op.1.token :: node.slots.flatten]
  | _, unary _ ops operand => [(ops.map fun op => token op.token) ++ operand.slots.flatten]
  | _, update _ operand op =>
    [operand.slots.flatten ++ op.toList.flatMap fun op => [sameLine, token op.token]]
  | _, call _ callee args modifiers =>
    [callee.slots.flatten ++ (args.slots.flatten ++ modifiers.slots.flatten)]
  | _, newExpr _ count object => [List.replicate count (word .kwNew) ++ object.slots.flatten]
  | _, member _ object modifiers => [object.slots.flatten ++ modifiers.slots.flatten]
  | _, ofInstantiation node => node.slots
  | _, instantiation _ object args => [word .kwNew :: (object.slots.flatten ++ args.slots.flatten)]
  | _, arguments _ list =>
    [punct .lparen :: (separated [punct .comma] list.slots ++ [punct .rparen])]
  | _, ofArguments node => node.slots
  | _, index _ expr => [punct .lbracket :: (expr.slots.flatten ++ [punct .rbracket])]
  | _, property _ own => [[punct .dot, token (.ofName own)]]
  | _, thisExpr _ => [[word .kwThis]]
  | _, ident _ own => [[name own]]
  | _, nullLit _ => [[word .kwNull]]
  | _, boolLit _ value => [[word (if value then .kwTrue else .kwFalse)]]
  | _, numberLit _ value => [[token (.number value)]]
  | _, stringLit _ value => [[token (.string value)]]
  | _, arrayLit _ elements =>
    [punct .lbracket :: elision ::
      (separated [punct .comma, elision] elements.slots ++ [elision, punct .rbracket])]
  | _, paren _ expr => [punct .lparen :: (expr.slots.flatten ++ [punct .rparen])]
  | _, funcExpr _ own params body => [function own params body.slots.flatten]
  | _, instantiated node => node.slots

-- The equations are derived here, once, and not again by each proof that uses them.
attribute [local simp] slots

/-- All slots of a tree. -/
abbrev yield {shape : Shape} (tree : Tree shape) : List Slot := tree.slots.flatten

/-- A node has one list of slots. -/
theorem slots_node {kind : Kind} (node : Node kind) : node.slots = [node.yield] := by
  have single : ∀ {shape : Shape} (tree : Tree shape), (∃ kind, shape = .node kind) →
      ∃ part, tree.slots = [part] := by
    intro shape tree isNode
    induction tree with
    | nil => cases isNode.choose_spec
    | cons _ _ => cases isNode.choose_spec
    | absent => cases isNode.choose_spec
    | present _ => cases isNode.choose_spec
    | ofStatement _ ih => exact ih ⟨_, rfl⟩
    | ofBlock _ ih => exact ih ⟨_, rfl⟩
    | plain _ _ ih => exact ih ⟨_, rfl⟩
    | ofInstantiation _ ih => exact ih ⟨_, rfl⟩
    | ofArguments _ ih => exact ih ⟨_, rfl⟩
    | instantiated _ ih => exact ih ⟨_, rfl⟩
    | _ => exact ⟨_, rfl⟩
  obtain ⟨part, same⟩ := single node ⟨kind, rfl⟩
  simp [yield, same]

/-- What is put in front of a node that may be absent. -/
theorem flatMap_slots_present {kind : Kind} (node : Node kind) (f : List Slot → List Slot) :
    (present node).slots.flatMap f = f node.yield := by
  rw [show (present node).slots = [node.yield] from slots_node node, List.flatMap_singleton]

theorem slots_ofList {kind : Kind} (list : List (Node kind)) : (ofList list).slots = list.map yield := by
  induction list with
  | nil => rfl
  | cons head tail ih =>
    change head.slots ++ (ofList tail).slots = _
    rw [slots_node, ih]
    rfl

theorem yield_ofList {kind : Kind} (list : List (Node kind)) :
    (ofList list).yield = (list.map yield).flatten := by
  rw [yield, slots_ofList]

theorem yield_ofList_append {kind : Kind} (list list' : List (Node kind)) :
    (ofList (list ++ list')).yield = (ofList list).yield ++ (ofList list').yield := by
  rw [yield_ofList, yield_ofList, yield_ofList, List.map_append, List.flatten_append]

end Tree

/-- The marks are, up to a rest, what the slots ask for: every token in its place, nothing left out and nothing
between but commas where they are allowed. -/
def Covers : List Slot → List Mark → List Mark → Prop
  | [], marks, rest => marks = rest
  | .token t :: slots, marks, rest => ∃ newline more, marks = (t, newline) :: more ∧ Covers slots more rest
  | .sameLine :: slots, marks, rest => (∀ mark ∈ marks.head?, mark.2 = false) ∧ Covers slots marks rest
  | .elision :: slots, marks, rest =>
    ∃ commas more, (∀ mark ∈ commas, mark.1 = Token.punct .comma) ∧ marks = commas ++ more ∧
      Covers slots more rest

namespace Covers

@[simp] theorem nil_iff {marks rest : List Mark} : Covers [] marks rest ↔ marks = rest := Iff.rfl

@[simp] theorem token_iff {t : Token} {slots : List Slot} {marks rest : List Mark} :
    Covers (.token t :: slots) marks rest ↔
      ∃ newline more, marks = (t, newline) :: more ∧ Covers slots more rest := Iff.rfl

@[simp] theorem punct_iff {p : Punct} {slots : List Slot} {marks rest : List Mark} :
    Covers (.punct p :: slots) marks rest ↔
      ∃ newline more, marks = (.punct p, newline) :: more ∧ Covers slots more rest := Iff.rfl

@[simp] theorem word_iff {w : Word} {slots : List Slot} {marks rest : List Mark} :
    Covers (.word w :: slots) marks rest ↔
      ∃ newline more, marks = (.keyword w, newline) :: more ∧ Covers slots more rest := Iff.rfl

@[simp] theorem name_iff {n : Bytes} {slots : List Slot} {marks rest : List Mark} :
    Covers (.name n :: slots) marks rest ↔
      ∃ newline more, marks = (.name n, newline) :: more ∧ Covers slots more rest := Iff.rfl

@[simp] theorem sameLine_iff {slots : List Slot} {marks rest : List Mark} :
    Covers (.sameLine :: slots) marks rest ↔
      (∀ mark ∈ marks.head?, mark.2 = false) ∧ Covers slots marks rest := Iff.rfl

theorem append {slots slots' : List Slot} {marks between rest : List Mark} (first : Covers slots marks between)
    (second : Covers slots' between rest) : Covers (slots ++ slots') marks rest := by
  induction slots generalizing marks with
  | nil =>
    cases first
    exact second
  | cons slot slots ih =>
    cases slot with
    | token t =>
      obtain ⟨newline, more, rfl, tail⟩ := first
      exact ⟨newline, more, rfl, ih tail⟩
    | sameLine => exact ⟨first.1, ih first.2⟩
    | elision =>
      obtain ⟨commas, more, all, rfl, tail⟩ := first
      exact ⟨commas, more, all, rfl, ih tail⟩

theorem of_append {slots slots' : List Slot} {marks rest : List Mark} (covers : Covers (slots ++ slots') marks rest) :
    ∃ between, Covers slots marks between ∧ Covers slots' between rest := by
  induction slots generalizing marks with
  | nil => exact ⟨marks, rfl, covers⟩
  | cons slot slots ih =>
    cases slot with
    | token t =>
      obtain ⟨newline, more, rfl, tail⟩ := covers
      obtain ⟨between, first, second⟩ := ih tail
      exact ⟨between, ⟨newline, more, rfl, first⟩, second⟩
    | sameLine =>
      obtain ⟨between, first, second⟩ := ih covers.2
      exact ⟨between, ⟨covers.1, first⟩, second⟩
    | elision =>
      obtain ⟨commas, more, all, rfl, tail⟩ := covers
      obtain ⟨between, first, second⟩ := ih tail
      exact ⟨between, ⟨commas, more, all, rfl, first⟩, second⟩

/-- What is covered comes before the rest. -/
theorem exists_append {slots : List Slot} {marks rest : List Mark} (covers : Covers slots marks rest) :
    ∃ taken, marks = taken ++ rest := by
  induction slots generalizing marks with
  | nil => exact ⟨[], covers⟩
  | cons slot slots ih =>
    cases slot with
    | token t =>
      obtain ⟨newline, more, rfl, tail⟩ := covers
      obtain ⟨taken, rfl⟩ := ih tail
      exact ⟨(t, newline) :: taken, rfl⟩
    | sameLine => exact ih covers.2
    | elision =>
      obtain ⟨commas, more, _, rfl, tail⟩ := covers
      obtain ⟨taken, rfl⟩ := ih tail
      exact ⟨commas ++ taken, by simp⟩

theorem length_le {slots : List Slot} {marks rest : List Mark} (covers : Covers slots marks rest) :
    rest.length ≤ marks.length := by
  obtain ⟨taken, rfl⟩ := covers.exists_append
  simp

/-- Without an elision, the marks covered are the tokens of the slots and nothing else. -/
theorem tokens_eq {slots : List Slot} {marks rest : List Mark} (covers : Covers slots marks rest)
    (plain : ∀ slot ∈ slots, slot ≠ .elision) :
    marks.map Prod.fst = slots.filterMap Slot.token? ++ rest.map Prod.fst := by
  induction slots generalizing marks with
  | nil =>
    cases covers
    rfl
  | cons slot slots ih =>
    have tail := fun marks covers => @ih marks covers fun slot member => plain slot (List.mem_cons_of_mem _ member)
    cases slot with
    | token t =>
      obtain ⟨newline, more, rfl, covers⟩ := covers
      exact congrArg (t :: ·) (tail more covers)
    | sameLine => exact tail marks covers.2
    | elision => exact absurd rfl (plain .elision List.mem_cons_self)

end Covers

/-! The slots of a tree hold the tokens of its layout -/

/-- Tokens with a separator between two parts. -/
def Token.separated (separator : List Token) : List (List Token) → List Token
  | [] => []
  | [part] => part
  | part :: rest => part ++ (separator ++ separated separator rest)

namespace Slot

/-- The tokens among the slots. -/
def tokens (slots : List Slot) : List Token := slots.filterMap token?

@[simp] theorem tokens_nil : tokens [] = [] := rfl

@[simp] theorem tokens_token (t : Token) (slots : List Slot) : tokens (token t :: slots) = t :: tokens slots := rfl

@[simp] theorem tokens_punct (p : Punct) (slots : List Slot) :
    tokens (punct p :: slots) = .punct p :: tokens slots := rfl

@[simp] theorem tokens_word (w : Word) (slots : List Slot) :
    tokens (word w :: slots) = .keyword w :: tokens slots := rfl

@[simp] theorem tokens_name (n : Bytes) (slots : List Slot) :
    tokens (name n :: slots) = .name n :: tokens slots := rfl

@[simp] theorem tokens_sameLine (slots : List Slot) : tokens (sameLine :: slots) = tokens slots := rfl

@[simp] theorem tokens_elision (slots : List Slot) : tokens (elision :: slots) = tokens slots := rfl

@[simp] theorem tokens_append (slots slots' : List Slot) :
    tokens (slots ++ slots') = tokens slots ++ tokens slots' := List.filterMap_append

@[simp] theorem tokens_flatten (parts : List (List Slot)) :
    tokens parts.flatten = (parts.map tokens).flatten := by
  induction parts with
  | nil => rfl
  | cons part rest ih => simp [ih]

@[simp] theorem tokens_flatMap_cons (slot : Slot) (parts : List (List Slot)) :
    tokens (parts.flatMap (slot :: ·)) = (parts.map tokens).flatMap (tokens [slot] ++ ·) := by
  induction parts with
  | nil => rfl
  | cons part rest ih =>
    rw [List.flatMap_cons, tokens_append, ih]
    cases slot <;> rfl

@[simp] theorem tokens_separated (separator : List Slot) (parts : List (List Slot)) :
    tokens (separated separator parts) = Token.separated (tokens separator) (parts.map tokens) := by
  fun_induction separated separator parts with
  | case1 => rfl
  | case2 part => rfl
  | case3 part rest more ih =>
    obtain _ | ⟨next, rest⟩ := rest
    · simp at more
    · simp [Token.separated, ih]

end Slot

namespace Piece

/-- The tokens among the pieces. -/
def tokens (pieces : List Piece) : List Token := pieces.filterMap token?

@[simp] theorem tokens_nil : tokens [] = [] := rfl

@[simp] theorem tokens_token (t : Token) (pieces : List Piece) :
    tokens (token t :: pieces) = t :: tokens pieces := rfl

@[simp] theorem tokens_punct (p : Punct) (pieces : List Piece) :
    tokens (punct p :: pieces) = .punct p :: tokens pieces := rfl

@[simp] theorem tokens_word (w : Word) (pieces : List Piece) :
    tokens (word w :: pieces) = .keyword w :: tokens pieces := rfl

@[simp] theorem tokens_name (n : Bytes) (pieces : List Piece) :
    tokens (name n :: pieces) = .name n :: tokens pieces := rfl

@[simp] theorem tokens_space (pieces : List Piece) : tokens (space :: pieces) = tokens pieces := rfl

@[simp] theorem tokens_newline (depth : Nat) (pieces : List Piece) :
    tokens (newline depth :: pieces) = tokens pieces := rfl

@[simp] theorem tokens_append (pieces pieces' : List Piece) :
    tokens (pieces ++ pieces') = tokens pieces ++ tokens pieces' := List.filterMap_append

@[simp] theorem tokens_flatten (parts : List (List Piece)) :
    tokens parts.flatten = (parts.map tokens).flatten := by
  induction parts with
  | nil => rfl
  | cons part rest ih => simp [ih]

@[simp] theorem tokens_flatMap_spaced (piece : Piece) (parts : List (List Piece)) :
    tokens (parts.flatMap (space :: piece :: space :: ·)) =
      (parts.map tokens).flatMap (tokens [piece] ++ ·) := by
  induction parts with
  | nil => rfl
  | cons part rest ih =>
    rw [List.flatMap_cons, tokens_append, ih]
    cases piece <;> rfl

@[simp] theorem tokens_flatMap_space (parts : List (List Piece)) :
    tokens (parts.flatMap (space :: ·)) = (parts.map tokens).flatten := by
  induction parts with
  | nil => rfl
  | cons part rest ih => simp [ih]

@[simp] theorem tokens_lines (depth : Nat) (parts : List (List Piece)) :
    tokens (Layout.lines depth parts) = (parts.map tokens).flatten := by
  induction parts with
  | nil => rfl
  | cons part rest ih => simpa [Layout.lines] using ih

@[simp] theorem tokens_paragraphs (parts : List (List Piece)) :
    tokens (Layout.paragraphs parts) = (parts.map tokens).flatten := by
  fun_induction Layout.paragraphs parts <;> simp_all

@[simp] theorem tokens_commas (parts : List (List Piece)) :
    tokens (Layout.commas parts) = Token.separated [.punct .comma] (parts.map tokens) := by
  fun_induction Layout.commas parts with
  | case1 => rfl
  | case2 part => rfl
  | case3 part rest more ih =>
    obtain _ | ⟨next, rest⟩ := rest
    · simp at more
    · simp [Token.separated, ih]

@[simp] theorem tokens_braces (depth : Nat) (parts : List (List Piece)) :
    tokens (Layout.braces depth parts) =
      .punct .lbrace :: ((parts.map tokens).flatten ++ [.punct .rbrace]) := by
  cases parts <;> simp [Layout.braces]

@[simp] theorem tokens_unaryOps (ops : List UnaryOp) :
    tokens (Layout.unaryOps ops) = ops.map UnaryOp.token := by
  induction ops with
  | nil => rfl
  | cons op rest ih =>
    rw [Layout.unaryOps]
    split <;> simp [ih]

end Piece

@[simp] theorem Slot.tokens_params (params : List Bytes) :
    (params.map fun n => [name n]).map tokens = params.map fun n => [.name n] := by
  simp [Function.comp_def]

@[simp] theorem Piece.tokens_params (params : List Bytes) :
    (params.map fun n => [name n]).map tokens = params.map fun n => [.name n] := by
  simp [Function.comp_def]

theorem Tree.map_tokens_layout {shape : Shape} (tree : Tree shape) (depth : Nat) :
    (tree.layout depth).map Piece.tokens = tree.slots.map Slot.tokens := by
  induction tree generalizing depth with
  | funcDecl _ own params body ih =>
    simp [slots, layout, Slot.function, Layout.function, ih, -List.map_map]
  | funcExpr _ own params body ih =>
    cases own <;> simp [slots, layout, Slot.function, Layout.function, ih, -List.map_map]
  | continueStmt _ label => cases label <;> simp [slots, layout, Slot.jump, Layout.jump]
  | breakStmt _ label => cases label <;> simp [slots, layout, Slot.jump, Layout.jump]
  | unary _ ops operand ih =>
    have same : Slot.tokens (ops.map fun op => .token op.token) = ops.map UnaryOp.token := by
      induction ops with
      | nil => rfl
      | cons op rest ih => simp [ih]
    simp [slots, layout, same, ih]
  | update _ operand op ih => cases op <;> simp [slots, layout, ih]
  | newExpr _ count object ih =>
    have same : Slot.tokens (List.replicate count (.word .kwNew)) =
        List.replicate count (Token.keyword .kwNew) := by
      induction count with
      | zero => rfl
      | succ count ih => simp [List.replicate_succ, ih]
    simp [slots, layout, same, ih]
  | member _ object modifiers ihObject ihModifiers =>
    have noToken : Piece.tokens (if object.needsSpace && modifiers.startsWithProperty then [.space] else []) =
        [] := by
      split <;> rfl
    simp only [slots, layout, List.map_cons, List.map_nil, Piece.tokens_append, noToken, Piece.tokens_flatten,
      Slot.tokens_append, Slot.tokens_flatten, ihObject, ihModifiers, List.append_nil]
  | _ => simp_all [slots, layout, Slot.head, Layout.head, Layout.clauses]

/-- The slots hold the tokens of the tree. -/
theorem Tree.tokens_yield {shape : Shape} (tree : Tree shape) : Slot.tokens tree.yield = tree.tokens := by
  change _ = Piece.tokens (tree.layout 0).flatten
  rw [Piece.tokens_flatten, map_tokens_layout, Slot.tokens_flatten]

/-- The first mark is the first token, or a comma that stands for nothing. -/
theorem Covers.head_token {slots : List Slot} {marks rest : List Mark} {t : Token}
    (covers : Covers slots marks rest) (first : (Slot.tokens slots).head? = some t) :
    marks.head?.map Prod.fst = some t ∨ marks.head?.map Prod.fst = some (.punct .comma) := by
  induction slots with
  | nil => cases first
  | cons slot slots ih =>
    cases slot with
    | token u =>
      obtain ⟨newline, more, rfl, _⟩ := covers
      exact .inl first
    | sameLine => exact ih covers.2 first
    | elision =>
      obtain ⟨_ | ⟨comma, commas⟩, more, all, rfl, tail⟩ := covers
      · exact ih tail first
      · exact .inr (congrArg some (all comma List.mem_cons_self))

end EcmaFold
