import EcmaFold.Proofs.TokenSequence

/-!
The identifiers of a program. They are the names that occur in it, except those that are only the target of a jump.
-/

namespace EcmaFold

/-! Sorted words -/

namespace Bytes

theorem mem_insertSorted {n word : Bytes} {words : List Bytes} : n ∈ insertSorted word words ↔ n = word ∨ n ∈ words := by
  induction words with
  | nil => simp [insertSorted]
  | cons first rest ih =>
    rw [insertSorted]
    split
    · rw [List.mem_cons]
    split
    · rename_i same
      rw [same, List.mem_cons, ← or_assoc, or_self]
    · rw [List.mem_cons, ih, List.mem_cons]
      exact or_left_comm

theorem insertSorted_increasing {word : Bytes} {words : List Bytes} (increasing : words.Pairwise (· < ·)) :
    (insertSorted word words).Pairwise (· < ·) := by
  induction words with
  | nil => exact List.pairwise_singleton _ _
  | cons first rest ih =>
    obtain ⟨least, increasingRest⟩ := List.pairwise_cons.mp increasing
    rw [insertSorted]
    split
    · rename_i earlier
      have less : word < first := of_decide_eq_true earlier
      refine List.pairwise_cons.mpr ⟨?_, increasing⟩
      exact List.forall_mem_cons.mpr ⟨less, fun n member => List.lt_trans less (least n member)⟩
    split
    · exact increasing
    · rename_i notEarlier other
      have notLess : ¬ word < first := fun less => notEarlier (decide_eq_true less)
      have less : first < word := Std.lt_of_le_of_ne notLess (Ne.symm other)
      refine List.pairwise_cons.mpr ⟨fun n member => ?_, ih increasingRest⟩
      rcases mem_insertSorted.mp member with rfl | member
      · exact less
      · exact least n member

theorem foldl_insertSorted {words set : List Bytes} (increasing : set.Pairwise (· < ·)) :
    (words.foldl (fun set word => insertSorted word set) set).Pairwise (· < ·) ∧
      ∀ n, n ∈ words.foldl (fun set word => insertSorted word set) set ↔ n ∈ words ∨ n ∈ set := by
  induction words generalizing set with
  | nil => exact ⟨increasing, fun n => by simp⟩
  | cons word words ih =>
    obtain ⟨sorted, members⟩ := ih (@insertSorted_increasing word _ increasing)
    refine ⟨sorted, fun n => (members n).trans ?_⟩
    rw [mem_insertSorted, List.mem_cons, or_assoc]
    exact or_left_comm

theorem sortedSet_increasing (words : List Bytes) : (sortedSet words).Pairwise (· < ·) :=
  (foldl_insertSorted List.Pairwise.nil).1

theorem mem_sortedSet {n : Bytes} {words : List Bytes} : n ∈ sortedSet words ↔ n ∈ words := by
  refine ((foldl_insertSorted List.Pairwise.nil).2 n).trans ?_
  rw [List.mem_nil_iff, or_false]

end Bytes

/-! Occurrences of names -/

/-- What a name stands for where it occurs. A jump target is the label of a `break` or a `continue`. -/
inductive NameRole where
  | reference | declared | function | parameter | catchParameter | property | label | jumpTarget
  deriving DecidableEq

namespace NameRole

/-- The token of an occurrence. A property name can be spelled like a keyword. -/
def token : NameRole × Bytes → Token
  | (property, name) => .ofName name
  | (_, name) => .name name

end NameRole

/-- The spelling of a name token. -/
def Token.name? : Token → Option Bytes
  | name spelling => some spelling
  | _ => none

namespace Tree

/-- The names in a tree in the order of the source, with what they stand for. -/
def named : {shape : Shape} → Tree shape → List (NameRole × Bytes)
  | _, ident _ name => [(.reference, name)]
  | _, declaration _ name init => (.declared, name) :: init.named
  | _, funcDecl _ name params body => (.function, name) :: (params.map (.parameter, ·) ++ body.named)
  | _, funcExpr _ name params body =>
    name.toList.map (.function, ·) ++ (params.map (.parameter, ·) ++ body.named)
  | _, catchClause _ param body => (.catchParameter, param) :: body.named
  | _, labeled _ label body => (.label, label) :: body.named
  | _, property _ name => [(.property, name)]
  | _, continueStmt _ label | _, breakStmt _ label => label.toList.map (.jumpTarget, ·)
  | _, nil | _, absent | _, emptyStmt _ | _, debugger _ | _, thisExpr _ | _, nullLit _ | _, boolLit _ _
  | _, numberLit _ _ | _, stringLit _ _ => []
  | _, present part | _, ofStatement part | _, ofBlock part | _, ofInstantiation part | _, ofArguments part
  | _, instantiated part | _, program _ part | _, block _ part | _, varStmt _ part | _, exprStmt _ part
  | _, returnStmt _ part | _, defaultClause _ part | _, throwStmt _ part | _, sequence _ part | _, target part _
  | _, plain _ part | _, operation _ _ _ part | _, unary _ _ part | _, update _ part _ | _, newExpr _ _ part
  | _, arguments _ part | _, index _ part | _, arrayLit _ part | _, paren _ part => part.named
  | _, cons first second | _, doWhile _ first second | _, whileStmt _ first second | _, withStmt _ first second
  | _, caseClause _ first second | _, assign _ first second | _, level _ _ first second | _, member _ first second
  | _, instantiation _ first second => first.named ++ second.named
  | _, ifStmt _ first second third | _, forIn _ first second third | _, forInVar _ first second third
  | _, tryStmt _ first second third | _, ternary _ first second third | _, call _ first second third =>
    first.named ++ (second.named ++ third.named)
  | _, forStmt _ first second third fourth | _, forVar _ first second third fourth
  | _, switchStmt _ first second third fourth => first.named ++ (second.named ++ (third.named ++ fourth.named))

/-- The name occurs, and not only as a jump target. -/
def Occurs (n : Bytes) (names : List (NameRole × Bytes)) : Prop := ∃ role, role ≠ .jumpTarget ∧ (role, n) ∈ names

theorem not_occurs_nil {n : Bytes} : ¬ Occurs n [] := by
  rintro ⟨_, _, ⟨⟩⟩

theorem not_occurs_append {n : Bytes} {names names' : List (NameRole × Bytes)} :
    ¬ Occurs n (names ++ names') ↔ ¬ Occurs n names ∧ ¬ Occurs n names' := by
  simp only [Occurs, List.mem_append, and_or_left, exists_or, not_or]

theorem not_occurs_map {n : Bytes} {role : NameRole} (used : role ≠ .jumpTarget) (names : List Bytes) :
    ¬ Occurs n (names.map (role, ·)) ↔ n ∉ names := by
  simp [Occurs, used]

theorem not_occurs_jump {n : Bytes} (names : List Bytes) : ¬ Occurs n (names.map (.jumpTarget, ·)) := by
  simp +contextual [Occurs]

theorem not_occurs_cons {n own : Bytes} {role : NameRole} (used : role ≠ .jumpTarget)
    {names : List (NameRole × Bytes)} : ¬ Occurs n ((role, own) :: names) ↔ n ≠ own ∧ ¬ Occurs n names :=
  (@not_occurs_append _ [(role, own)] _).trans
    (and_congr_left' ((not_occurs_map used [own]).trans (not_congr List.mem_singleton)))

/-- A name does not occur in a tree if none of the nodes has it for its own. -/
theorem not_occurs_named {n : Bytes} {shape : Shape} (tree : Tree shape) :
    ¬ Occurs n tree.named ↔ tree.All fun _ part => n ∉ part.ownNames := by
  have node {rest : Prop} : (n ∉ ([] : List Bytes)) ∧ rest ↔ rest := and_iff_right List.not_mem_nil
  have single {own : Bytes} : n ≠ own ↔ n ∉ [own] := (not_congr List.mem_singleton).symm
  induction tree with
  | nil | absent => exact iff_of_true not_occurs_nil trivial
  | emptyStmt | debugger | thisExpr | nullLit | boolLit | numberLit | stringLit =>
    exact iff_of_true not_occurs_nil List.not_mem_nil
  | continueStmt | breakStmt => exact iff_of_true (not_occurs_jump _) List.not_mem_nil
  | ident | property => exact not_occurs_map (by decide) [_]
  | declaration _ _ _ ih | labeled _ _ _ ih | catchClause _ _ _ ih =>
    exact (not_occurs_cons (by decide)).trans (and_congr single ih)
  | funcDecl _ own params _ ih =>
    have behind := not_occurs_append.trans (and_congr (@not_occurs_map n .parameter (by decide) params) ih)
    have names : n ≠ own ∧ n ∉ params ↔ n ∉ own :: params := not_or.symm.trans (not_congr List.mem_cons.symm)
    exact (not_occurs_cons (by decide)).trans
      ((and_congr_right' behind).trans (and_assoc.symm.trans (and_congr_left' names)))
  | funcExpr _ own params _ ih =>
    have first := @not_occurs_map n .function (by decide) own.toList
    have behind := not_occurs_append.trans (and_congr (@not_occurs_map n .parameter (by decide) params) ih)
    have names : n ∉ own.toList ∧ n ∉ params ↔ n ∉ own.toList ++ params :=
      not_or.symm.trans (not_congr List.mem_append.symm)
    exact (not_occurs_append.trans (and_congr first behind)).trans (and_assoc.symm.trans (and_congr_left' names))
  | present _ ih | ofStatement _ ih | ofBlock _ ih | ofInstantiation _ ih | ofArguments _ ih | instantiated _ ih
  | target _ _ ih | operation _ _ _ _ ih => exact ih
  | program _ _ ih | block _ _ ih | varStmt _ _ ih | exprStmt _ _ ih | returnStmt _ _ ih | defaultClause _ _ ih
  | throwStmt _ _ ih | sequence _ _ ih | plain _ _ ih | unary _ _ _ ih | update _ _ _ ih | newExpr _ _ _ ih
  | arguments _ _ ih | index _ _ ih | arrayLit _ _ ih | paren _ _ ih => exact ih.trans node.symm
  | cons _ _ ihFirst ihSecond => exact not_occurs_append.trans (and_congr ihFirst ihSecond)
  | doWhile _ _ _ ihFirst ihSecond | whileStmt _ _ _ ihFirst ihSecond | withStmt _ _ _ ihFirst ihSecond
  | caseClause _ _ _ ihFirst ihSecond | assign _ _ _ ihFirst ihSecond | level _ _ _ _ ihFirst ihSecond
  | member _ _ _ ihFirst ihSecond | instantiation _ _ _ ihFirst ihSecond =>
    exact (not_occurs_append.trans (and_congr ihFirst ihSecond)).trans node.symm
  | ifStmt _ _ _ _ ihFirst ihSecond ihThird | forIn _ _ _ _ ihFirst ihSecond ihThird
  | forInVar _ _ _ _ ihFirst ihSecond ihThird | tryStmt _ _ _ _ ihFirst ihSecond ihThird
  | ternary _ _ _ _ ihFirst ihSecond ihThird | call _ _ _ _ ihFirst ihSecond ihThird =>
    have behind := not_occurs_append.trans (and_congr ihSecond ihThird)
    exact (not_occurs_append.trans (and_congr ihFirst behind)).trans node.symm
  | forStmt _ _ _ _ _ ihFirst ihSecond ihThird ihFourth | forVar _ _ _ _ _ ihFirst ihSecond ihThird ihFourth
  | switchStmt _ _ _ _ _ ihFirst ihSecond ihThird ihFourth =>
    have last := not_occurs_append.trans (and_congr ihThird ihFourth)
    have behind := not_occurs_append.trans (and_congr ihSecond last)
    exact (not_occurs_append.trans (and_congr ihFirst behind)).trans node.symm

theorem mem_identifiers {n : Bytes} {shape : Shape} {tree : Tree shape} :
    n ∈ tree.identifiers ↔ Occurs n tree.named := by
  have absent : (∀ any ∈ tree.nodes, n ∉ any.node.ownNames) ↔ ¬ Occurs n tree.named :=
    all_iff_nodes.symm.trans (not_occurs_named tree).symm
  rw [identifiers, Bytes.mem_sortedSet, List.mem_flatMap, ← not_iff_not, ← absent]
  simp only [not_exists, not_and]

end Tree

/-! The names in the source -/

namespace Token

@[simp] theorem name?_name (spelling : Bytes) : (name spelling).name? = some spelling := rfl

@[simp] theorem name?_punct (p : Punct) : (punct p).name? = none := rfl

@[simp] theorem name?_keyword (w : Word) : (keyword w).name? = none := rfl

@[simp] theorem name?_number (value : Number) : (number value).name? = none := rfl

@[simp] theorem name?_string (value : Bytes) : (string value).name? = none := rfl

end Token

@[simp] theorem AssignOp.name?_token (op : AssignOp) : op.token.name? = none := by
  cases op <;> rfl

@[simp] theorem BinaryOp.name?_token (op : BinaryOp) : op.token.name? = none := by
  cases op <;> rfl

@[simp] theorem UnaryOp.name?_token (op : UnaryOp) : op.token.name? = none := by
  cases op <;> rfl

@[simp] theorem UpdateOp.name?_token (op : UpdateOp) : op.token.name? = none := by
  cases op <;> rfl

namespace Slot

/-- The names among the slots. -/
def names (slots : List Slot) : List Bytes := slots.filterMap fun slot => slot.token?.bind Token.name?

@[simp] theorem names_nil : names [] = [] := rfl

@[simp] theorem names_token (t : Token) (slots : List Slot) :
    names (token t :: slots) = t.name?.toList ++ names slots := by
  rw [names, List.filterMap_cons]
  cases found : t.name? <;> simp [token?, found, names]

@[simp] theorem names_punct (p : Punct) (slots : List Slot) : names (punct p :: slots) = names slots :=
  names_token (.punct p) slots

@[simp] theorem names_word (w : Word) (slots : List Slot) : names (word w :: slots) = names slots :=
  names_token (.keyword w) slots

@[simp] theorem names_name (n : Bytes) (slots : List Slot) : names (name n :: slots) = n :: names slots :=
  names_token (.name n) slots

@[simp] theorem names_sameLine (slots : List Slot) : names (sameLine :: slots) = names slots :=
  List.filterMap_cons_none rfl

@[simp] theorem names_elision (slots : List Slot) : names (elision :: slots) = names slots :=
  List.filterMap_cons_none rfl

@[simp] theorem names_append (slots slots' : List Slot) : names (slots ++ slots') = names slots ++ names slots' :=
  List.filterMap_append

theorem names_flatMap_cons {slot : Slot} (nameless : names [slot] = []) (parts : List (List Slot)) :
    names (parts.flatMap (slot :: ·)) = names parts.flatten := by
  induction parts with
  | nil => rfl
  | cons part rest ih =>
    rw [List.flatMap_cons, List.flatten_cons, names_append, names_append, ih,
      show slot :: part = [slot] ++ part from rfl, names_append, nameless, List.nil_append]

theorem names_separated {separator : List Slot} (nameless : names separator = []) (parts : List (List Slot)) :
    names (separated separator parts) = names parts.flatten := by
  fun_induction separated separator parts with
  | case1 => rfl
  | case2 part => simp
  | case3 part rest _ ih => simp [nameless, ih]

theorem names_unaryOps (ops : List UnaryOp) : names (ops.map fun op => token op.token) = [] := by
  induction ops with
  | nil => rfl
  | cons op ops ih => simp [ih]

theorem names_news (count : Nat) : names (List.replicate count (word .kwNew)) = [] := by
  induction count with
  | zero => rfl
  | succ count ih => simp [List.replicate_succ, ih]

theorem names_head (w : Word) (slots : List Slot) : names (head w slots) = names slots := by
  simp [head]

theorem names_jump (w : Word) (label : Option Bytes) : names (jump w label) = label.toList := by
  cases label <;> rfl

theorem names_params (params : List Bytes) :
    names (separated [punct .comma] (params.map fun n => [name n])) = params := by
  rw [names_separated rfl]
  induction params with
  | nil => rfl
  | cons n params ih => simpa using ih

theorem names_function (own : Option Bytes) (params : List Bytes) (body : List Slot) :
    names (function own params body) = own.toList ++ (params ++ names body) := by
  cases own <;> simp [function, names_params]

end Slot

/-- The names that are written as names, without the properties that are spelled like keywords. -/
def NameRole.written (names : List (NameRole × Bytes)) : List Bytes := names.filterMap fun occurrence =>
  (token occurrence).name?

namespace NameRole

@[simp] theorem written_nil : written [] = [] := rfl

@[simp] theorem written_append (names names' : List (NameRole × Bytes)) :
    written (names ++ names') = written names ++ written names' := List.filterMap_append

@[simp] theorem written_map {role : NameRole} (plain : role ≠ property) (names : List Bytes) :
    written (names.map (role, ·)) = names := by
  induction names with
  | nil => rfl
  | cons n names ih => cases role <;> first | exact congrArg (n :: ·) ih | contradiction

@[simp] theorem written_cons {role : NameRole} (plain : role ≠ property) (own : Bytes)
    (names : List (NameRole × Bytes)) : written ((role, own) :: names) = own :: written names := by
  rw [show (role, own) :: names = [own].map (role, ·) ++ names from rfl, written_append, written_map plain]
  rfl

@[simp] theorem written_property (own : Bytes) : written [(property, own)] = (Token.ofName own).name?.toList := by
  cases found : (Token.ofName own).name? <;> simp [written, token, found]

end NameRole

namespace Tree

open NameRole Slot

-- The equations are derived here, once, and not again by each case below.
attribute [local simp] named

/-- The name tokens of a tree are the names that occur in it. -/
theorem names_yield {shape : Shape} (tree : Tree shape) : Slot.names tree.yield = written tree.named := by
  induction tree with
  | update _ _ op ih => cases op <;> simp_all [yield, slots]
  | _ =>
    simp_all [yield, slots, Slot.names_flatMap_cons, Slot.names_separated, Slot.names_unaryOps, Slot.names_news,
      Slot.names_head, Slot.names_jump, Slot.names_function]

end Tree

/-- The name tokens that slots cover are those of the slots. -/
theorem Covers.names {slots : List Slot} {marks rest : List Mark} (covers : Covers slots marks rest) :
    marks.filterMap (·.1.name?) = Slot.names slots ++ rest.filterMap (·.1.name?) := by
  induction slots generalizing marks with
  | nil =>
    cases covers
    rfl
  | cons slot slots ih =>
    cases slot with
    | token t =>
      obtain ⟨newline, more, rfl, tail⟩ := covers
      rw [Slot.names_token, List.append_assoc, ← ih tail, List.filterMap_cons]
      cases t.name? <;> rfl
    | sameLine => exact ih covers.2
    | elision =>
      obtain ⟨commas, more, all, rfl, tail⟩ := covers
      have nameless : commas.filterMap (·.1.name?) = [] :=
        List.filterMap_eq_nil_iff.mpr fun comma member => congrArg Token.name? (all comma member)
      rw [List.filterMap_append, nameless, List.nil_append, Slot.names_elision, ih tail]

namespace Program

open EcmaFold.Tree NameRole

/-- The identifiers of an accepted program increase in byte order. They are the names that occur in it, whose tokens
are all the name tokens of the source, other than as jump targets only. So all names are there if and only if each
jump target also occurs as something else. -/
theorem identifiers_of_parse {file source : Bytes} {program : Program} (accepted : parse file source = .ok program) :
    program.tree.identifiers.Pairwise (· < ·) ∧
      (Lexeme.scan source).filterMap (·.token.name?) = written program.tree.named ∧
      (∀ n, n ∈ program.tree.identifiers ↔ ∃ role, role ≠ jumpTarget ∧ (role, n) ∈ program.tree.named) ∧
      ((∀ n, n ∈ program.tree.identifiers ↔ ∃ role, (role, n) ∈ program.tree.named) ↔
        ∀ n, (jumpTarget, n) ∈ program.tree.named → ∃ role, role ≠ jumpTarget ∧ (role, n) ∈ program.tree.named) := by
  have members (n : Bytes) : n ∈ program.tree.identifiers ↔ Occurs n program.tree.named := mem_identifiers
  refine ⟨Bytes.sortedSet_increasing _, ?_, members, fun all n target => ?_, fun declared n => ?_⟩
  · obtain ⟨-, marks, newline, scanned, covers, -⟩ := parse_covers accepted
    have listed : (Lexeme.scan source).filterMap (·.token.name?) =
        (Lexeme.marks false source).filterMap (·.1.name?) := by
      rw [Lexeme.marks, List.filterMap_map]
      rfl
    rw [listed, scanned, List.filterMap_append, covers.names, names_yield]
    simp [Token.name?]
  · exact (members n).mp ((all n).mpr ⟨_, target⟩)
  · rw [members n]
    constructor
    · rintro ⟨role, -, occurs⟩
      exact ⟨role, occurs⟩
    · rintro ⟨role, occurs⟩
      by_cases target : role = jumpTarget
      · subst target
        exact declared n occurs
      · exact ⟨role, target, occurs⟩

/-- A label in front of a statement and the jump to it, a property that is spelled like a keyword, and names in an
order that is not theirs. -/
theorem identifiers_of_parse_labels :
    ∃ program, parse [] (utf8 "fox: while (b.if) \x7bvar a = function c(d) \x7b\x7d; continue fox;\x7d") = .ok program ∧
      program.tree.identifiers.Pairwise (· < ·) ∧ utf8 "if" ∈ program.tree.identifiers ∧
      utf8 "fox" ∈ program.tree.identifiers := by
  have complete : (readPart (utf8 "fox: while (b.if) \x7bvar a = function c(d) \x7b\x7d; continue fox;\x7d")).complete =
      true := by decide +kernel
  have accepted := @parse_of_complete [] _ complete
  obtain ⟨increasing, -, members, -⟩ := identifiers_of_parse accepted
  refine ⟨_, accepted, increasing, (members _).mpr ⟨.property, by decide, by decide +kernel⟩, ?_⟩
  exact (members _).mpr ⟨.label, by decide, by decide +kernel⟩

/-- The label of a jump is a name in the source but no identifier of the program. -/
theorem identifiers_of_jumps :
    (∃ program, parse [] (utf8 "break fox;") = .ok program ∧ (jumpTarget, utf8 "fox") ∈ program.tree.named ∧
      program.tree.identifiers = []) ∧
    ∃ program, parse [] (utf8 "continue fox;") = .ok program ∧ (jumpTarget, utf8 "fox") ∈ program.tree.named ∧
      program.tree.identifiers = [] :=
  ⟨⟨_, parse_of_complete (by decide +kernel), by decide +kernel, by decide +kernel⟩,
    ⟨_, parse_of_complete (by decide +kernel), by decide +kernel, by decide +kernel⟩⟩

end Program

end EcmaFold
