import EcmaFold.Proofs.Tree.Outline
import EcmaFold.Proofs.Tree.WellFormed

/-!
The outline of a tree. The dump of a tree is the text of its outline, and the trees of the grammar have outlines
that can be read back.
-/

namespace EcmaFold

namespace Outline

def append : Outline → Outline → Outline
  | nil, other => other
  | item label title attributes below rest, other => item label title attributes below (rest.append other)

instance : Append Outline := ⟨append⟩

theorem append_nil (outline : Outline) : outline ++ nil = outline := by
  induction outline with
  | nil => rfl
  | item _ _ _ _ _ _ ih => exact congrArg _ ih

/-- A single form. -/
def form (title : Title) (attributes : List Attribute) (below : Outline) : Outline :=
  item [] title attributes below nil

/-- The same forms under another label. -/
def relabel (label : Bytes) : Outline → Outline
  | nil => nil
  | item _ title attributes below rest => item label title attributes below (rest.relabel label)

/-- Moves every label to the form after it. -/
def shiftLabels : (label : Bytes) → Outline → Outline
  | _, nil => nil
  | label, item next title attributes below rest => item label title attributes below (rest.shiftLabels next)

/-- The entries of the forms. -/
def entries (base : Bytes) : Outline → (depth : Nat) → List Dump.Entry
  | nil, _ => []
  | item label title attributes below rest, depth =>
    Dump.relabel label
      (Dump.form base depth title.text (attributes.map Attribute.text) (below.entries base (depth + 1))) ++
      rest.entries base depth

variable {base : Bytes} {depth : Nat}

/-- The entries, each on a line of its own, are the lines of the outline. -/
theorem flatten_entries (outline : Outline) :
    ((outline.entries base depth).flatMap (Dump.line base depth)).flatten = outline.lines base depth := by
  induction outline generalizing depth with
  | nil => rfl
  | item label title attributes below rest ihBelow ihRest =>
    have spaced : ((attributes.map Attribute.text).map (utf8 " " ++ ·)).flatten =
        attributes.flatMap (fun a => utf8 " " ++ a.text) := by
      rw [List.map_map, List.flatMap_def]
      rfl
    rw [entries, List.flatMap_append, List.flatten_append, ihRest, lines, ← ihBelow, ← spaced]
    simp [Dump.form, Dump.relabel, Dump.line]

/-- The entries are those of the outline. -/
def Shows (base : Bytes) (depth : Nat) (outline : Outline) (entries : List Dump.Entry) : Prop :=
  entries = outline.entries base depth

namespace Shows

variable {outline outline' : Outline} {entries entries' : List Dump.Entry}

theorem nil : Shows base depth .nil [] := rfl

theorem append (first : outline.Shows base depth entries) (second : outline'.Shows base depth entries') :
    (outline ++ outline').Shows base depth (entries ++ entries') := by
  cases first
  cases second
  induction outline with
  | nil => rfl
  | item label title attributes below rest _ ih =>
    refine (List.append_assoc _ _ _).trans ?_
    exact congrArg _ ih

theorem relabel (shows : outline.Shows base depth entries) (label : Bytes) :
    (outline.relabel label).Shows base depth (Dump.relabel label entries) := by
  cases shows
  induction outline with
  | nil => rfl
  | item _ _ _ _ _ _ ih => exact congrArg (_ :: ·) ih

theorem shiftLabels (shows : outline.Shows base depth entries) (label : Bytes) :
    (outline.shiftLabels label).Shows base depth (Dump.shiftLabels label entries) := by
  cases shows
  induction outline generalizing label with
  | nil => rfl
  | item next _ _ _ _ _ ih => exact congrArg (_ :: ·) (ih next)

theorem form {title : Title} {attributes : List Attribute} (shows : outline.Shows base (depth + 1) entries) :
    (form title attributes outline).Shows base depth
      (Dump.form base depth title.text (attributes.map Attribute.text) entries) := by
  cases shows
  rfl

end Shows

namespace Clean

variable {outline outline' : Outline}

theorem append (first : outline.Clean) (second : outline'.Clean) : (outline ++ outline').Clean := by
  induction outline with
  | nil => exact second
  | item _ _ _ _ _ _ ih => exact ⟨first.1, first.2.1, first.2.2.1, ih first.2.2.2⟩

theorem relabel (clean : outline.Clean) {label : Bytes} (isLabel : label.all Dump.isLabelByte = true) :
    (outline.relabel label).Clean := by
  induction outline with
  | nil => trivial
  | item _ _ _ _ _ _ ih => exact ⟨isLabel, clean.2.1, clean.2.2.1, ih clean.2.2.2⟩

theorem shiftLabels (clean : outline.Clean) {label : Bytes} (isLabel : label.all Dump.isLabelByte = true) :
    (outline.shiftLabels label).Clean := by
  induction outline generalizing label with
  | nil => trivial
  | item _ _ _ _ _ _ ih => exact ⟨isLabel, clean.2.1, clean.2.2.1, ih clean.2.2.2 clean.1⟩

theorem form {title : Title} {attributes : List Attribute} (all : ∀ a ∈ attributes, a.Clean) (clean : outline.Clean) :
    (form title attributes outline).Clean :=
  ⟨rfl, all, clean, trivial⟩

end Clean

end Outline

namespace Tree

open Outline

/-- The outline of the nodes of a tree. The label of an operation is its operator; that of a target is the operator
after it. -/
def outline : {shape : Shape} → Tree shape → Outline
  | _, nil => .nil
  | _, cons node rest => node.outline ++ rest.outline
  | _, absent => .nil
  | _, present node => node.outline
  | _, program _ elements => form .program [] elements.outline
  | _, funcDecl _ own params body => form .funcDecl [.word own, .params params] body.outline
  | _, ofStatement node => node.outline
  | _, ofBlock node => node.outline
  | _, block _ list => form .block [] list.outline
  | _, varStmt _ list => form .varStmt [] list.outline
  | _, declaration _ own init => form .declaration [.word own] init.outline
  | _, emptyStmt _ => form .emptyStmt [] .nil
  | _, exprStmt _ expr => form .exprStmt [] expr.outline
  | _, ifStmt _ cond yes no => form .ifStmt [] (cond.outline ++ yes.outline ++ no.outline.relabel (utf8 "else "))
  | _, doWhile _ body cond => form .doWhile [] (body.outline ++ cond.outline.relabel (utf8 "while "))
  | _, whileStmt _ cond body => form .whileStmt [] (cond.outline ++ body.outline)
  | _, forStmt _ init cond post body =>
    form .forStmt [] (init.outline.relabel (utf8 "init ") ++ cond.outline.relabel (utf8 "cond ") ++
      post.outline.relabel (utf8 "post ") ++ body.outline)
  | _, forVar _ decls cond post body =>
    form .forVar [] (decls.outline ++ cond.outline.relabel (utf8 "cond ") ++
      post.outline.relabel (utf8 "post ") ++ body.outline)
  | _, forIn _ into object body =>
    form .forIn [] (into.outline ++ object.outline.relabel (utf8 "in ") ++ body.outline)
  | _, forInVar _ decl object body =>
    form .forInVar [] (decl.outline ++ object.outline.relabel (utf8 "in ") ++ body.outline)
  | _, continueStmt _ label => form .continueStmt (label.toList.map .word) .nil
  | _, breakStmt _ label => form .breakStmt (label.toList.map .word) .nil
  | _, returnStmt _ value => form .returnStmt [] value.outline
  | _, withStmt _ object body => form .withStmt [] (object.outline ++ body.outline)
  | _, labeled _ label body => form .labeled [.word label] body.outline
  | _, switchStmt _ tag cases fallback trailing =>
    form .switchStmt [] (tag.outline ++ cases.outline ++ fallback.outline ++ trailing.outline)
  | _, caseClause _ value body => form .caseClause [] (value.outline ++ body.outline)
  | _, defaultClause _ body => form .defaultClause [] body.outline
  | _, throwStmt _ value => form .throwStmt [] value.outline
  | _, tryStmt _ body handler cleanup =>
    form .tryStmt [] (body.outline ++ handler.outline ++ cleanup.outline.relabel (utf8 "finally "))
  | _, catchClause _ param body => form .catchClause [.word param] body.outline
  | _, debugger _ => form .debugger [] .nil
  | _, sequence _ (cons only nil) => only.outline
  | _, sequence _ list => form .sequence [] list.outline
  | _, assign _ nil value => value.outline
  | _, assign _ targets value => form .assign [] ((targets.outline ++ value.outline).shiftLabels [])
  | _, target node op => node.outline.relabel (op.spelling ++ utf8 " ")
  | _, plain _ value => value.outline
  | _, ternary _ test yes no =>
    form .ternary [] (test.outline ++ yes.outline.relabel (utf8 "? ") ++ no.outline.relabel (utf8 ": "))
  | _, level _ _ head nil => head.outline
  | _, level _ tier head operations => form (.tier tier) [] (head.outline ++ operations.outline)
  | _, operation _ op _ node => node.outline.relabel (op.1.spelling ++ utf8 " ")
  | _, unary _ [] operand => operand.outline
  | _, unary _ ops operand => form .unary (ops.map fun op => .word op.spelling) operand.outline
  | _, update _ operand none => operand.outline
  | _, update _ operand (some op) => form .update [.word op.spelling] operand.outline
  | _, call _ callee args modifiers => form .call [] (callee.outline ++ args.outline ++ modifiers.outline)
  | _, newExpr _ 0 object => object.outline
  | _, newExpr _ (n + 1) object => form .newExpr [.word (Bytes.ofNat (n + 1))] object.outline
  | _, member _ object nil => object.outline
  | _, member _ object modifiers => form .member [] (object.outline ++ modifiers.outline)
  | _, ofInstantiation node => node.outline
  | _, instantiation _ object args => form .instantiation [] (object.outline ++ args.outline)
  | _, arguments _ list => form .arguments [] list.outline
  | _, ofArguments node => node.outline
  | _, index _ expr => form .index [] expr.outline
  | _, property _ own => form .property [.word own] .nil
  | _, thisExpr _ => form .thisExpr [] .nil
  | _, ident _ own => form .ident [.word own] .nil
  | _, nullLit _ => form .nullLit [] .nil
  | _, boolLit _ value => form .boolLit [.word (Bytes.ofBool value)] .nil
  | _, numberLit _ value => form .numberLit [.word (Dump.numeralKind value.value), .word value.raw] .nil
  | _, stringLit _ value => form .stringLit [.quoted value] .nil
  | _, arrayLit _ elements => form .arrayLit [] elements.outline
  | _, paren _ expr => form .paren [] expr.outline
  | _, funcExpr _ own params body => form .funcExpr (own.toList.map .word ++ [.params params]) body.outline
  | _, instantiated node => node.outline

/-- A dump shows the outline of the tree. -/
theorem outline_shows {shape : Shape} (tree : Tree shape) (base : Bytes) (depth : Nat) :
    tree.outline.Shows base depth (tree.dumpEntries base depth) := by
  induction tree generalizing depth with
  | nil | absent => exact .nil
  | cons _ _ ihHead ihTail => exact (ihHead _).append (ihTail _)
  | present _ ih | ofStatement _ ih | ofBlock _ ih | plain _ _ ih | ofInstantiation _ ih | ofArguments _ ih
  | instantiated _ ih => exact ih _
  | target _ _ ih | operation _ _ _ _ ih => exact (ih _).relabel _
  | emptyStmt | debugger | property | thisExpr | ident | nullLit | boolLit | numberLit | stringLit =>
    exact .form .nil
  | continueStmt _ label | breakStmt _ label => cases label <;> exact .form .nil
  | funcExpr _ own _ _ ih => cases own <;> exact .form (ih _)
  -- These are shown only if they add something to what they wrap.
  | sequence _ list ih =>
    match list with
    | nil => exact .form (ih _)
    | cons only nil =>
      have shows : (only.outline ++ .nil).Shows base depth (only.dumpEntries base depth ++ []) := ih depth
      rwa [append_nil, List.append_nil] at shows
    | cons _ (cons _ _) => exact .form (ih _)
  | assign _ targets _ ihTargets ihValue =>
    cases targets with
    | nil => exact ihValue _
    | cons _ _ => exact .form (((ihTargets _).append (ihValue _)).shiftLabels _)
  | level _ _ _ operations ihHead ihOperations =>
    cases operations with
    | nil => exact ihHead _
    | cons _ _ => exact .form ((ihHead _).append (ihOperations _))
  | unary _ ops operand ih =>
    cases ops with
    | nil => exact ih _
    | cons op ops =>
      have spelled : (op :: ops).map UnaryOp.spelling =
          ((op :: ops).map fun op => Attribute.word op.spelling).map Attribute.text := by
        rw [List.map_map]
        rfl
      have shows : (form .unary ((op :: ops).map fun op => .word op.spelling) operand.outline).Shows base depth _ :=
        .form (ih _)
      rwa [← spelled] at shows
  | update _ _ op ih =>
    cases op with
    | none => exact ih _
    | some _ => exact .form (ih _)
  | newExpr _ count _ ih =>
    cases count with
    | zero => exact ih _
    | succ _ => exact .form (ih _)
  | member _ _ modifiers ihObject ihModifiers =>
    cases modifiers with
    | nil => exact ihObject _
    | cons _ _ => exact .form ((ihObject _).append (ihModifiers _))
  | whileStmt _ _ _ ihFirst ihSecond | withStmt _ _ _ ihFirst ihSecond | caseClause _ _ _ ihFirst ihSecond
  | instantiation _ _ _ ihFirst ihSecond => exact .form ((ihFirst _).append (ihSecond _))
  | doWhile _ _ _ ihBody ihCond => exact .form ((ihBody _).append ((ihCond _).relabel _))
  | call _ _ _ _ ihCallee ihArgs ihModifiers =>
    exact .form (((ihCallee _).append (ihArgs _)).append (ihModifiers _))
  | ifStmt _ _ _ _ ihFirst ihSecond ihThird | tryStmt _ _ _ _ ihFirst ihSecond ihThird =>
    exact .form (((ihFirst _).append (ihSecond _)).append ((ihThird _).relabel _))
  | forIn _ _ _ _ ihFirst ihSecond ihThird | forInVar _ _ _ _ ihFirst ihSecond ihThird =>
    exact .form (((ihFirst _).append ((ihSecond _).relabel _)).append (ihThird _))
  | ternary _ _ _ _ ihTest ihYes ihNo =>
    exact .form (((ihTest _).append ((ihYes _).relabel _)).append ((ihNo _).relabel _))
  | forStmt _ _ _ _ _ ihInit ihCond ihPost ihBody =>
    exact .form (((((ihInit _).relabel _).append ((ihCond _).relabel _)).append ((ihPost _).relabel _)).append
      (ihBody _))
  | forVar _ _ _ _ _ ihDecls ihCond ihPost ihBody =>
    exact .form ((((ihDecls _).append ((ihCond _).relabel _)).append ((ihPost _).relabel _)).append (ihBody _))
  | switchStmt _ _ _ _ _ ihTag ihCases ihFallback ihTrailing =>
    exact .form ((((ihTag _).append (ihCases _)).append (ihFallback _)).append (ihTrailing _))
  | program _ _ ih | funcDecl _ _ _ _ ih | block _ _ ih | varStmt _ _ ih | declaration _ _ _ ih | exprStmt _ _ ih
  | returnStmt _ _ ih | labeled _ _ _ ih | defaultClause _ _ ih | throwStmt _ _ ih | catchClause _ _ _ ih
  | arguments _ _ ih | index _ _ ih | arrayLit _ _ ih | paren _ _ ih => exact .form (ih _)

end Tree

/-! Trees of the grammar -/

namespace Dump

theorem isWord_of_read {text : Bytes} (spelled : Name.read? text = some text) : IsWord text :=
  have spelling := (Name.read?_eq_some spelled).1
  ⟨spelling.ne_nil, List.all_eq_true.mpr fun b member => isWordByte_of_isWordByte (spelling.isWordByte b member)⟩

theorem isWord_of_identifier {text : Bytes} (identifier : Name.identifier? text = some text) : IsWord text :=
  isWord_of_read (Option.filter_eq_some_iff.mp identifier).1

theorem isWord_of_number {value : Number} (spelled : Number.read? value.raw = some value) : IsWord value.raw :=
  have spelling := (Number.read?_eq_some spelled).1
  ⟨spelling.ne_nil, List.all_eq_true.mpr fun b member => isWordByte_of_isWordByte (spelling.isWordByte b member)⟩

theorem isWord_ofNat (n : Nat) : IsWord (Bytes.ofNat n) := by
  refine ⟨fun empty => Nat.toDigits_ne_nil (List.map_eq_nil_iff.mp empty), List.all_eq_true.mpr fun b member => ?_⟩
  obtain ⟨c, inside, rfl⟩ := List.mem_map.mp member
  have digit := Nat.isDigit_of_mem_toDigits (by decide) (by decide) inside
  have table : ∀ n < 58, 48 ≤ n → isWordByte n.toUInt8 = true := by decide
  rw [Char.isDigit, Bool.and_eq_true, decide_eq_true_iff, decide_eq_true_iff] at digit
  exact table c.toNat (Nat.lt_succ_iff.mpr (UInt32.le_iff_toNat_le.mp digit.2)) (UInt32.le_iff_toNat_le.mp digit.1)

theorem isWord_kindName : IsWord (Numeral.kindName 0) ∧ IsWord (Numeral.kindName 1) :=
  ⟨⟨by decide, by decide⟩, by decide, by decide⟩

theorem isWord_assignOp (op : AssignOp) : IsWord op.spelling := by
  cases op <;> exact ⟨by decide, by decide⟩

theorem isWord_binaryOp (op : BinaryOp) : IsWord op.spelling := by
  cases op <;> exact ⟨by decide, by decide⟩

theorem isWord_unaryOp (op : UnaryOp) : IsWord op.spelling := by
  cases op <;> exact ⟨by decide, by decide⟩

theorem isWord_updateOp (op : UpdateOp) : IsWord op.spelling := by
  cases op <;> exact ⟨by decide, by decide⟩

theorem IsWord.label {text : Bytes} (isWord : IsWord text) : (text ++ utf8 " ").all isLabelByte = true := by
  refine List.all_eq_true.mpr (List.forall_mem_append.mpr ⟨fun b member => ?_, List.all_eq_true.mp (by decide)⟩)
  rw [isLabelByte, List.all_eq_true.mp isWord.2 b member, Bool.or_true]

end Dump

namespace Attribute

open Dump

theorem clean_word {text : Bytes} (isWord : IsWord text) : ∀ a ∈ [word text], a.Clean :=
  List.forall_mem_singleton.mpr isWord

theorem clean_label {label : Option Bytes} (identifiers : ∀ n ∈ label, Name.identifier? n = some n) :
    ∀ a ∈ label.toList.map word, a.Clean := by
  cases label with
  | none => exact List.forall_mem_nil _
  | some n => exact clean_word (isWord_of_identifier (identifiers n rfl))

theorem clean_params {params : List Bytes} (identifiers : ∀ n ∈ params, Name.identifier? n = some n) :
    (Attribute.params params).Clean :=
  fun n member => isWord_of_identifier (identifiers n member)

end Attribute

namespace Tree

open Outline Dump Attribute

/-- The outline of a tree of the grammar can be read back. -/
theorem outline_clean {shape : Shape} {tree : Tree shape} (proper : tree.All Proper) : tree.outline.Clean := by
  have plain : ∀ a ∈ ([] : List Attribute), a.Clean := List.forall_mem_nil _
  induction tree with
  | nil | absent => trivial
  | cons _ _ ihHead ihTail => exact (ihHead proper.1).append (ihTail proper.2)
  | present _ ih | ofStatement _ ih | ofBlock _ ih | ofInstantiation _ ih | ofArguments _ ih
  | instantiated _ ih => exact ih proper
  | plain _ _ ih => exact ih proper.2
  | target _ op ih => exact (ih proper).relabel (isWord_assignOp op).label
  | operation _ op _ _ ih => exact (ih proper).relabel (isWord_binaryOp op.1).label
  | emptyStmt | debugger | thisExpr | nullLit => exact .form plain trivial
  | stringLit => exact .form (List.forall_mem_singleton.mpr trivial) trivial
  | boolLit _ value => exact .form (clean_word (by cases value <;> exact ⟨by decide, by decide⟩)) trivial
  | numberLit _ value =>
    have isKind : IsWord (numeralKind value.value) := by
      cases value.value with
      | int => exact isWord_kindName.1
      | float => exact isWord_kindName.2
    exact .form (List.forall_mem_cons.mpr ⟨isKind, clean_word (isWord_of_number proper)⟩) trivial
  | property => exact .form (clean_word (isWord_of_read proper)) trivial
  | ident => exact .form (clean_word (isWord_of_identifier proper)) trivial
  | continueStmt | breakStmt => exact .form (clean_label proper) trivial
  | funcDecl _ _ _ _ ih =>
    exact .form (List.forall_mem_cons.mpr ⟨isWord_of_identifier proper.1.1,
      List.forall_mem_singleton.mpr (clean_params proper.1.2)⟩) (ih proper.2)
  | funcExpr _ _ _ _ ih =>
    exact .form (List.forall_mem_append.mpr ⟨clean_label proper.1.1,
      List.forall_mem_singleton.mpr (clean_params proper.1.2)⟩) (ih proper.2)
  | declaration _ _ _ ih | labeled _ _ _ ih | catchClause _ _ _ ih =>
    exact .form (clean_word (isWord_of_identifier proper.1)) (ih proper.2)
  | sequence _ list ih =>
    match list with
    | nil => exact .form plain trivial
    | cons only nil =>
      have clean : (only.outline ++ .nil).Clean := ih proper.2
      rwa [append_nil] at clean
    | cons _ (cons _ _) => exact .form plain (ih proper.2)
  | assign _ targets _ ihTargets ihValue =>
    cases targets with
    | nil => exact ihValue proper.2.2
    | cons _ _ =>
      exact .form plain (((ihTargets proper.2.1).append (ihValue proper.2.2)).shiftLabels rfl)
  | level _ _ _ operations ihHead ihOperations =>
    cases operations with
    | nil => exact ihHead proper.2.1
    | cons _ _ => exact .form plain ((ihHead proper.2.1).append (ihOperations proper.2.2))
  | unary _ ops _ ih =>
    cases ops with
    | nil => exact ih proper.2
    | cons _ _ =>
      refine .form (List.forall_mem_map.mpr fun op _ => ?_) (ih proper.2)
      exact isWord_unaryOp op
  | update _ _ op ih =>
    cases op with
    | none => exact ih proper.2
    | some op => exact .form (clean_word (isWord_updateOp op)) (ih proper.2)
  | newExpr _ count _ ih =>
    cases count with
    | zero => exact ih proper.2
    | succ count => exact .form (clean_word (isWord_ofNat _)) (ih proper.2)
  | member _ _ modifiers ihObject ihModifiers =>
    cases modifiers with
    | nil => exact ihObject proper.2.1
    | cons _ _ => exact .form plain ((ihObject proper.2.1).append (ihModifiers proper.2.2))
  | whileStmt _ _ _ ihFirst ihSecond | withStmt _ _ _ ihFirst ihSecond | caseClause _ _ _ ihFirst ihSecond
  | instantiation _ _ _ ihFirst ihSecond => exact .form plain ((ihFirst proper.2.1).append (ihSecond proper.2.2))
  | doWhile _ _ _ ihBody ihCond =>
    exact .form plain ((ihBody proper.2.1).append ((ihCond proper.2.2).relabel (by decide)))
  | call _ _ _ _ ihFirst ihSecond ihThird =>
    obtain ⟨-, first, second, third⟩ := proper
    exact .form plain (((ihFirst first).append (ihSecond second)).append (ihThird third))
  | ifStmt _ _ _ _ ihFirst ihSecond ihThird | tryStmt _ _ _ _ ihFirst ihSecond ihThird =>
    obtain ⟨-, first, second, third⟩ := proper
    exact .form plain (((ihFirst first).append (ihSecond second)).append ((ihThird third).relabel (by decide)))
  | forIn _ _ _ _ ihFirst ihSecond ihThird | forInVar _ _ _ _ ihFirst ihSecond ihThird =>
    obtain ⟨-, first, second, third⟩ := proper
    exact .form plain (((ihFirst first).append ((ihSecond second).relabel (by decide))).append (ihThird third))
  | ternary _ _ _ _ ihFirst ihSecond ihThird =>
    obtain ⟨-, first, second, third⟩ := proper
    exact .form plain (((ihFirst first).append ((ihSecond second).relabel (by decide))).append
      ((ihThird third).relabel (by decide)))
  | forStmt _ _ _ _ _ ihInit ihCond ihPost ihBody =>
    obtain ⟨-, init, cond, post, body⟩ := proper
    exact .form plain (((((ihInit init).relabel (by decide)).append ((ihCond cond).relabel (by decide))).append
      ((ihPost post).relabel (by decide))).append (ihBody body))
  | forVar _ _ _ _ _ ihDecls ihCond ihPost ihBody =>
    obtain ⟨-, decls, cond, post, body⟩ := proper
    exact .form plain ((((ihDecls decls).append ((ihCond cond).relabel (by decide))).append
      ((ihPost post).relabel (by decide))).append (ihBody body))
  | switchStmt _ _ _ _ _ ihTag ihCases ihFallback ihTrailing =>
    obtain ⟨-, tag, cases, fallback, trailing⟩ := proper
    exact .form plain ((((ihTag tag).append (ihCases cases)).append (ihFallback fallback)).append
      (ihTrailing trailing))
  | program _ _ ih | block _ _ ih | varStmt _ _ ih | exprStmt _ _ ih | returnStmt _ _ ih | defaultClause _ _ ih
  | throwStmt _ _ ih | arguments _ _ ih | index _ _ ih | arrayLit _ _ ih | paren _ _ ih =>
    exact .form plain (ih proper.2)

end Tree

end EcmaFold
