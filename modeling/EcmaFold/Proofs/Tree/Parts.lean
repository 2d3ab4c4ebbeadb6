import EcmaFold.Proofs.Lexer.Adjacent
import EcmaFold.Proofs.Parser.Follow
import EcmaFold.Proofs.Tree.Outlined

/-!
Slots from outlines. The outline of a tree of the grammar determines the slots of the tree.
-/

namespace EcmaFold

namespace Slot

/-- The token that is spelled so. -/
def ofWord (text : Bytes) : Slot := token (Token.read text).1

theorem ofWord_of_readsBack {t : Token} (back : t.ReadsBack []) : ofWord t.spelling = token t := by
  have read := back.2
  rw [List.append_nil] at read
  rw [ofWord, read]

/-- Punctuators and reserved words are read back. -/
theorem ofWord_fixed {t : Token} (fixed : (∃ p, t = .punct p) ∨ ∃ w, t = .keyword w) :
    ofWord t.spelling = token t := by
  obtain ⟨p, rfl⟩ | ⟨w, rfl⟩ := fixed
  · exact ofWord_of_readsBack (Token.punct_readsBack nofun)
  · exact ofWord_of_readsBack (Token.keyword_readsBack w rfl)

theorem ofWord_assignOp (op : AssignOp) : ofWord op.spelling = token op.token :=
  ofWord_fixed (.inl (by cases op <;> exact ⟨_, rfl⟩))

theorem ofWord_binaryOp (op : BinaryOp) : ofWord op.spelling = token op.token :=
  ofWord_fixed (by cases op <;> first | exact .inl ⟨_, rfl⟩ | exact .inr ⟨_, rfl⟩)

theorem ofWord_unaryOp (op : UnaryOp) : ofWord op.spelling = token op.token :=
  ofWord_fixed (by cases op <;> first | exact .inl ⟨_, rfl⟩ | exact .inr ⟨_, rfl⟩)

theorem ofWord_updateOp (op : UpdateOp) : ofWord op.spelling = token op.token :=
  ofWord_fixed (.inl (by cases op <;> exact ⟨_, rfl⟩))

theorem ofWord_bool (value : Bool) : ofWord (Bytes.ofBool value) = word (if value then .kwTrue else .kwFalse) := by
  cases value with
  | false => exact ofWord_fixed (t := .keyword .kwFalse) (.inr ⟨_, rfl⟩)
  | true => exact ofWord_fixed (t := .keyword .kwTrue) (.inr ⟨_, rfl⟩)

theorem ofWord_number {value : Number} (spelled : Number.read? value.raw = some value) :
    ofWord value.raw = token (.number value) :=
  ofWord_of_readsBack (t := .number value) (Token.number_readsBack spelled rfl nofun)

end Slot

/-- A label and what the form behind it stands for. -/
abbrev Part := Bytes × List Slot

namespace Part

open Slot

/-- What all parts stand for. -/
def joined (parts : List Part) : List Slot := (parts.map Prod.snd).flatten

/-- What the first part stands for. -/
def first (parts : List Part) : List Slot := (parts.head?.map Prod.snd).getD []

/-- The parts with a label. -/
def labelled (label : Bytes) (parts : List Part) : List (List Slot) :=
  (parts.filter fun part => part.1 = label).map Prod.snd

/-- A part behind an operator, which its label spells. -/
def operated (part : Part) : List Slot := ofWord part.1.dropLast :: part.2

/-- A part that stands behind a word if it has a certain label. -/
def behind (label : Bytes) (w : Word) (part : Part) : List Slot :=
  if part.1 = label then word w :: part.2 else part.2

/-- Parts under one label. -/
def under (label : Bytes) (slots : List (List Slot)) : List Part := slots.map (Prod.mk label)

variable {label other : Bytes} {slots : List (List Slot)} {parts parts' : List Part}

@[simp] theorem map_snd_under : (under label slots).map Prod.snd = slots := by
  rw [under, List.map_map]
  exact List.map_id slots

@[simp] theorem joined_under : joined (under label slots) = slots.flatten := by
  rw [joined, map_snd_under]

@[simp] theorem joined_append : joined (parts ++ parts') = joined parts ++ joined parts' := by
  simp [joined]

@[simp] theorem labelled_append : labelled label (parts ++ parts') = labelled label parts ++ labelled label parts' := by
  simp [labelled]

@[simp] theorem labelled_under : labelled label (under label slots) = slots := by
  rw [labelled, List.filter_eq_self.mpr, map_snd_under]
  intro part member
  obtain ⟨_, _, rfl⟩ := List.mem_map.mp member
  exact decide_eq_true rfl

theorem labelled_under_of_ne (different : other ≠ label) : labelled label (under other slots) = [] := by
  rw [labelled, List.filter_eq_nil_iff.mpr, List.map_nil]
  intro part member
  obtain ⟨_, _, rfl⟩ := List.mem_map.mp member
  simpa using different

@[simp] theorem flatMap_behind_under (w : Word) :
    (under label slots).flatMap (behind label w) = slots.flatMap (word w :: ·) := by
  simp [under, List.flatMap_map, behind]

theorem flatMap_behind_under_of_ne (w : Word) (different : other ≠ label) :
    (under other slots).flatMap (behind label w) = slots.flatten := by
  simp [under, List.flatMap_map, behind, different]

@[simp] theorem first_under_append (text : List Slot) : first (under label [text] ++ parts) = text := rfl

@[simp] theorem tail_under_append (text : List Slot) : (under label [text] ++ parts).tail = parts := rfl

/-- What stands before an operator, which its label spells. -/
def targeted (part : Part) : List Slot := part.2 ++ [ofWord part.1.dropLast]

/-- Parts with operators between them, each in the label of the part behind it. -/
def chained (parts : List Part) : List Slot := first parts ++ parts.tail.flatMap operated

/-- Moves every label to the part after it. -/
def shiftLabels : (label : Bytes) → List Part → List Part
  | _, [] => []
  | label, first :: rest => (label, first.2) :: shiftLabels first.1 rest

theorem operated_shiftLabels (label : Bytes) (part : Part) :
    (shiftLabels label (part :: parts)).flatMap operated =
      ofWord label.dropLast :: chained (shiftLabels label (part :: parts)) := rfl

/-- With the labels moved, the operators stand between the targets and the value. -/
theorem chained_shiftLabels (label : Bytes) (targets : List Part) (value : List Slot) :
    chained (shiftLabels label (targets ++ under other [value])) = (targets.map targeted).flatten ++ value := by
  induction targets generalizing label with
  | nil => exact List.append_nil _
  | cons target rest ih =>
    have next : (shiftLabels target.1 (rest ++ under other [value])).flatMap operated =
        ofWord target.1.dropLast :: chained (shiftLabels target.1 (rest ++ under other [value])) := by
      cases rest <;> exact operated_shiftLabels _ _
    rw [List.cons_append, shiftLabels, chained, first, List.head?_cons, List.tail_cons, next, ih, List.map_cons,
      List.flatten_cons, targeted, List.append_assoc, List.append_assoc]
    rfl

@[simp] theorem dropLast_label (text : Bytes) : (text ++ utf8 " ").dropLast = text := List.dropLast_concat

end Part

theorem Bytes.digitsValue_ofNat (n : Nat) : digitsValue 10 (ofNat n) = n := by
  induction n using Nat.strongRecOn with
  | _ n ih =>
    have digit : ∀ d < 10, (hexValue? (ofAscii d.digitChar)).getD 0 = d := by decide
    by_cases small : n < 10
    · rw [ofNat, Nat.toDigits_of_lt_base small]
      exact (Nat.zero_add _).trans (digit n small)
    · have high := ih (n / 10) (by omega)
      rw [ofNat, Nat.toDigits_of_base_le (by decide) (by omega), List.map_append, digitsValue, List.foldl_append]
      rw [ofNat, digitsValue] at high
      rw [high]
      exact (congrArg (n / 10 * 10 + ·) (digit (n % 10) (Nat.mod_lt _ (by decide)))).trans (Nat.div_add_mod' n 10)

/-- The words among attributes. -/
def Attribute.words (attributes : List Attribute) : List Bytes :=
  attributes.filterMap fun
    | word text => some text
    | _ => none

theorem Attribute.words_map {α : Type} (text : α → Bytes) (list : List α) :
    words (list.map fun a => word (text a)) = list.map text := by
  induction list with
  | nil => rfl
  | cons a rest ih => exact congrArg (text a :: ·) ih

def Attribute.firstWord (attributes : List Attribute) : Bytes := (words attributes).headD []

/-- The parameters among attributes. -/
def Attribute.names (attributes : List Attribute) : List Bytes :=
  attributes.flatMap fun
    | params names => names
    | _ => []

def Attribute.contents (attributes : List Attribute) : Bytes :=
  attributes.flatMap fun
    | quoted text => text
    | _ => []

open Slot EcmaFold.Part Attribute in
/-- The slots of a form. -/
def Title.slots (title : Title) (attributes : List Attribute) (parts : List Part) : List Slot :=
  match title with
  | program | call | member => joined parts
  | funcDecl | funcExpr => function (words attributes).head? (names attributes) (joined parts)
  | block => punct .lbrace :: (joined parts ++ [punct .rbrace])
  | varStmt => word .kwVar :: (separated [punct .comma] (parts.map Prod.snd) ++ [punct .semicolon])
  | declaration => name (firstWord attributes) :: (parts.map Prod.snd).flatMap (punct .assign :: ·)
  | emptyStmt => [punct .semicolon]
  | exprStmt => joined parts ++ [punct .semicolon]
  | ifStmt => head .kwIf (first parts) ++ parts.tail.flatMap (behind (utf8 "else ") .kwElse)
  | doWhile => word .kwDo :: (first parts ++ (head .kwWhile (joined parts.tail) ++ [punct .semicolon]))
  | whileStmt => head .kwWhile (first parts) ++ joined parts.tail
  | forStmt =>
    head .kwFor ((labelled (utf8 "init ") parts).flatten ++ punct .semicolon ::
      ((labelled (utf8 "cond ") parts).flatten ++ punct .semicolon :: (labelled (utf8 "post ") parts).flatten)) ++
      (labelled [] parts).flatten
  | forVar =>
    head .kwFor (word .kwVar :: (separated [punct .comma] (labelled [] parts).dropLast ++ punct .semicolon ::
      ((labelled (utf8 "cond ") parts).flatten ++ punct .semicolon :: (labelled (utf8 "post ") parts).flatten))) ++
      (labelled [] parts).getLastD []
  | forIn => head .kwFor (first parts ++ word .kwIn :: first parts.tail) ++ joined parts.tail.tail
  | forInVar =>
    head .kwFor (word .kwVar :: (first parts ++ word .kwIn :: first parts.tail)) ++ joined parts.tail.tail
  | continueStmt => jump .kwContinue (words attributes).head?
  | breakStmt => jump .kwBreak (words attributes).head?
  | returnStmt => word .kwReturn :: ((parts.map Prod.snd).flatMap (sameLine :: ·) ++ [punct .semicolon])
  | withStmt => head .kwWith (first parts) ++ joined parts.tail
  | labeled => name (firstWord attributes) :: punct .colon :: joined parts
  | switchStmt => head .kwSwitch (first parts) ++ punct .lbrace :: (joined parts.tail ++ [punct .rbrace])
  | caseClause => word .kwCase :: (first parts ++ punct .colon :: joined parts.tail)
  | defaultClause => word .kwDefault :: punct .colon :: joined parts
  | throwStmt => word .kwThrow :: sameLine :: (joined parts ++ [punct .semicolon])
  | tryStmt => word .kwTry :: parts.flatMap (behind (utf8 "finally ") .kwFinally)
  | catchClause => head .kwCatch [name (firstWord attributes)] ++ joined parts
  | debugger => [word .kwDebugger, punct .semicolon]
  | sequence => separated [punct .comma] (parts.map Prod.snd)
  | assign | tier _ => chained parts
  | ternary => first parts ++ punct .question :: (first parts.tail ++ punct .colon :: joined parts.tail.tail)
  | unary => (words attributes).map ofWord ++ joined parts
  | update => joined parts ++ [sameLine, ofWord (firstWord attributes)]
  | newExpr => List.replicate (Bytes.digitsValue 10 (firstWord attributes)) (word .kwNew) ++ joined parts
  | instantiation => word .kwNew :: joined parts
  | arguments => punct .lparen :: (separated [punct .comma] (parts.map Prod.snd) ++ [punct .rparen])
  | index => punct .lbracket :: (joined parts ++ [punct .rbracket])
  | property => [punct .dot, token (.ofName (firstWord attributes))]
  | thisExpr => [word .kwThis]
  | ident => [name (firstWord attributes)]
  | nullLit => [word .kwNull]
  | boolLit => [ofWord (firstWord attributes)]
  | numberLit => [ofWord ((words attributes).getLastD [])]
  | stringLit => [token (.string (contents attributes))]
  | arrayLit =>
    punct .lbracket :: elision ::
      (separated [punct .comma, elision] (parts.map Prod.snd) ++ [elision, punct .rbracket])
  | paren => punct .lparen :: (joined parts ++ [punct .rparen])

/-- The label of each form and what it stands for. -/
def Outline.parts : Outline → List Part
  | nil => []
  | item label title attributes below rest => (label, title.slots attributes below.parts) :: rest.parts

/-! The parts of a tree are its slots -/

namespace Outline

open EcmaFold.Part

variable {outline outline' : Outline} {parts parts' : List Part}

theorem parts_append (first : outline.parts = parts) (second : outline'.parts = parts') :
    (outline ++ outline').parts = parts ++ parts' := by
  subst first second
  induction outline with
  | nil => rfl
  | item _ _ _ _ _ _ ih => exact congrArg _ ih

theorem parts_relabel {label : Bytes} {slots : List (List Slot)} (same : outline.parts = under label slots)
    (other : Bytes) : (outline.relabel other).parts = under other slots := by
  have relabelled : (outline.relabel other).parts = under other (outline.parts.map Prod.snd) := by
    clear same
    induction outline with
    | nil => rfl
    | item _ _ _ _ _ _ ih => exact congrArg _ ih
  rw [relabelled, same, map_snd_under]

theorem parts_shiftLabels (same : outline.parts = parts) (label : Bytes) :
    (outline.shiftLabels label).parts = Part.shiftLabels label parts := by
  subst same
  induction outline generalizing label with
  | nil => rfl
  | item next _ _ _ _ _ ih => exact congrArg _ (ih next)

theorem parts_form {title : Title} {attributes : List Attribute} {slots : List Slot} (inside : outline.parts = parts)
    (same : title.slots attributes parts = slots) : (form title attributes outline).parts = under [] [slots] := by
  subst inside same
  rfl

end Outline

open EcmaFold.Part

/-- What forms stand for: those of operations and targets have operators for labels, and all others have none. -/
def Kind.Matches : Kind → List Part → List (List Slot) → Prop
  | .operation _, parts, slots => parts.map Part.operated = slots
  | .target, parts, slots => parts.map Part.targeted = slots
  | _, parts, slots => parts = under [] slots

namespace Tree

open Outline Slot

theorem parts_node {kind : Kind} {node : Node kind} {outline : Outline}
    (same : outline.parts = under [] node.slots) : outline.parts = under [] [node.yield] := by
  rw [same, slots_node]

/-- A node in front of parts that are not there. -/
theorem parts_wrapped {kind : Kind} {node : Node kind} {outline : Outline}
    (same : outline.parts = under [] node.slots) : outline.parts = under [] [node.yield ++ []] := by
  rw [List.append_nil, parts_node same]

theorem parts_node_relabel {kind : Kind} {node : Node kind} {outline : Outline}
    (same : outline.parts = under [] node.slots) (label : Bytes) :
    (outline.relabel label).parts = under label [node.yield] := by
  rw [parts_relabel same, slots_node]

theorem operand_matches {tier : Tier} {parts : List Part} {slots : List (List Slot)}
    (same : tier.operand.Matches parts slots) : parts = under [] slots := by
  cases tier <;> exact same

/-- The forms of a tree of the grammar stand for the slots of its nodes. -/
theorem parts_outline {shape : Shape} {tree : Tree shape} (proper : tree.All Proper) :
    shape.kind.Matches tree.outline.parts tree.slots := by
  induction tree with
  | @nil kind => cases kind <;> rfl
  | @absent kind => cases kind <;> rfl
  | present _ ih | ofStatement _ ih | ofBlock _ ih | ofInstantiation _ ih | ofArguments _ ih | instantiated _ ih =>
    exact ih proper
  | plain _ _ ih => exact ih proper.2
  | @cons kind head tail ihHead ihTail =>
    have first := ihHead proper.1
    have rest := ihTail proper.2
    cases kind with
    | operation _ | target =>
      exact (congrArg (List.map _) (parts_append rfl rfl)).trans
        (List.map_append.trans (congr (congrArg _ first) rest))
    | _ => exact (parts_append first rest).trans List.map_append.symm
  | emptyStmt | debugger | property | thisExpr | ident | nullLit =>
    exact parts_form rfl rfl
  | continueStmt _ label | breakStmt _ label => cases label <;> exact parts_form rfl rfl
  | boolLit _ value => exact parts_form rfl (congrArg (fun slot => [slot]) (ofWord_bool value))
  | numberLit _ value => exact parts_form rfl (congrArg (fun slot => [slot]) (ofWord_number proper))
  | stringLit _ value => exact parts_form rfl (by simp [Title.slots, Attribute.contents])
  | program _ _ ih | funcDecl _ _ _ _ ih | block _ _ ih | varStmt _ _ ih | declaration _ _ _ ih | exprStmt _ _ ih
  | returnStmt _ _ ih | labeled _ _ _ ih | defaultClause _ _ ih | throwStmt _ _ ih | catchClause _ _ _ ih
  | arguments _ _ ih | index _ _ ih | arrayLit _ _ ih | paren _ _ ih =>
    refine parts_form (ih proper.2) ?_
    simp [Title.slots, Attribute.words, Attribute.firstWord, Attribute.names]
  | funcExpr _ own _ _ ih =>
    refine parts_form (ih proper.2) ?_
    cases own <;> simp [Title.slots, Attribute.words, Attribute.names]
  | whileStmt _ _ _ ihFirst ihSecond | withStmt _ _ _ ihFirst ihSecond | caseClause _ _ _ ihFirst ihSecond =>
    refine parts_form (parts_append (parts_node (ihFirst proper.2.1)) (ihSecond proper.2.2)) ?_
    simp [Title.slots]
  | instantiation _ _ _ ihObject ihArgs =>
    refine parts_form (parts_append (ihObject proper.2.1) (ihArgs proper.2.2)) ?_
    simp [Title.slots]
  | doWhile _ _ _ ihBody ihCond =>
    refine parts_form (parts_append (parts_node (ihBody proper.2.1)) (parts_relabel (ihCond proper.2.2) _)) ?_
    simp [Title.slots]
  | call _ _ _ _ ihCallee ihArgs ihModifiers =>
    obtain ⟨-, callee, args, modifiers⟩ := proper
    refine parts_form (parts_append (parts_append (ihCallee callee) (ihArgs args)) (ihModifiers modifiers)) ?_
    simp [Title.slots]
  | ifStmt _ _ _ _ ihCond ihYes ihNo =>
    obtain ⟨-, cond, yes, no⟩ := proper
    refine parts_form (parts_append (parts_append (parts_node (ihCond cond)) (ihYes yes))
      (parts_relabel (ihNo no) _)) ?_
    simp (disch := decide) [Title.slots, flatMap_behind_under_of_ne]
  | tryStmt _ _ _ _ ihBody ihHandler ihCleanup =>
    obtain ⟨-, body, handler, cleanup⟩ := proper
    refine parts_form (parts_append (parts_append (ihBody body) (ihHandler handler))
      (parts_relabel (ihCleanup cleanup) _)) ?_
    simp (disch := decide) [Title.slots, flatMap_behind_under_of_ne]
  | forIn _ _ _ _ ihInto ihObject ihBody | forInVar _ _ _ _ ihInto ihObject ihBody =>
    obtain ⟨-, into, object, body⟩ := proper
    refine parts_form (parts_append (parts_append (parts_node (ihInto into))
      (parts_node_relabel (ihObject object) _)) (ihBody body)) ?_
    simp [Title.slots]
  | ternary _ _ _ _ ihTest ihYes ihNo =>
    obtain ⟨-, test, yes, no⟩ := proper
    refine parts_form (parts_append (parts_append (parts_node (ihTest test)) (parts_node_relabel (ihYes yes) _))
      (parts_relabel (ihNo no) _)) ?_
    simp [Title.slots]
  | forStmt _ _ _ _ _ ihInit ihCond ihPost ihBody =>
    obtain ⟨-, init, cond, post, body⟩ := proper
    refine parts_form (parts_append (parts_append (parts_append (parts_relabel (ihInit init) _)
      (parts_relabel (ihCond cond) _)) (parts_relabel (ihPost post) _)) (ihBody body)) ?_
    simp (disch := decide) [Title.slots, labelled_under_of_ne]
  | forVar _ _ _ _ _ ihDecls ihCond ihPost ihBody =>
    obtain ⟨-, decls, cond, post, body⟩ := proper
    refine parts_form (parts_append (parts_append (parts_append (ihDecls decls)
      (parts_relabel (ihCond cond) _)) (parts_relabel (ihPost post) _)) (parts_node (ihBody body))) ?_
    simp (disch := decide) [Title.slots, labelled_under_of_ne]
  | switchStmt _ _ _ _ _ ihTag ihCases ihFallback ihTrailing =>
    obtain ⟨-, tag, clauses, fallback, trailing⟩ := proper
    refine parts_form (parts_append (parts_append (parts_append (parts_node (ihTag tag)) (ihCases clauses))
      (ihFallback fallback)) (ihTrailing trailing)) ?_
    simp [Title.slots]
  | target _ op ih =>
    refine (congrArg (List.map _) (parts_node_relabel (ih proper) _)).trans ?_
    simp [under, targeted, ofWord_assignOp, slots]
  | operation _ op _ _ ih =>
    refine (congrArg (List.map _) (parts_node_relabel (operand_matches (ih proper)) _)).trans ?_
    simp [under, operated, ofWord_binaryOp, slots]
  | sequence _ list ih =>
    cases list with
    | nil => exact parts_form rfl rfl
    | cons only rest =>
      cases rest with
      | nil =>
        have same : (only.outline ++ .nil).parts = under [] (only.slots ++ []) := ih proper.2
        rw [append_nil, List.append_nil] at same
        have single : (cons only nil).slots = [only.yield] := (List.append_nil _).trans (slots_node only)
        exact (parts_node same).trans (congrArg (fun list => under [] [separated [punct .comma] list]) single.symm)
      | cons _ _ =>
        refine parts_form (ih proper.2) ?_
        simp [Title.slots]
  | assign _ targets _ ihTargets ihValue =>
    have value := parts_node (ihValue proper.2.2)
    cases targets with
    | nil => exact value
    | cons target rest =>
      -- The operator of a target is in the label of the form behind it.
      refine parts_form (parts_shiftLabels (parts_append rfl value) _) ?_
      have same : (outline (cons target rest)).parts.map targeted = (cons target rest).slots := ihTargets proper.2.1
      rw [Title.slots, chained_shiftLabels, same]
  | level _ _ _ operations ihHead ihOperations =>
    have first := operand_matches (ihHead proper.2.1)
    cases operations with
    | nil => exact parts_wrapped first
    | cons operation rest =>
      refine parts_form (parts_append (parts_node first) rfl) ?_
      have same : (outline (cons operation rest)).parts.map operated = (cons operation rest).slots :=
        ihOperations proper.2.2
      rw [Title.slots, chained, first_under_append, tail_under_append, List.flatMap_def, same]
  | unary _ ops _ ih =>
    cases ops with
    | nil => exact parts_node (ih proper.2)
    | cons op rest =>
      refine parts_form (ih proper.2) ?_
      have words := Attribute.words_map UnaryOp.spelling (op :: rest)
      have tokens : (op :: rest).map (ofWord ∘ UnaryOp.spelling) = (op :: rest).map fun op => token op.token :=
        List.map_congr_left fun op _ => ofWord_unaryOp op
      rw [Title.slots, words, List.map_map, tokens, joined_under]
  | update _ _ op ih =>
    cases op with
    | none => exact parts_wrapped (ih proper.2)
    | some op =>
      refine parts_form (ih proper.2) ?_
      simp [Title.slots, Attribute.firstWord, Attribute.words, ofWord_updateOp]
  | newExpr _ count _ ih =>
    cases count with
    | zero => exact parts_node (ih proper.2)
    | succ count =>
      refine parts_form (ih proper.2) ?_
      simp [Title.slots, Attribute.firstWord, Attribute.words, Bytes.digitsValue_ofNat]
  | member _ _ modifiers ihObject ihModifiers =>
    cases modifiers with
    | nil => exact parts_wrapped (ihObject proper.2.1)
    | cons _ _ =>
      refine parts_form (parts_append (ihObject proper.2.1) (ihModifiers proper.2.2)) ?_
      simp [Title.slots]

end Tree

end EcmaFold
