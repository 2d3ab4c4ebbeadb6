import EcmaFold.Proofs.Lexer.WordBytes
import EcmaFold.Proofs.Text.Shown
import EcmaFold.Tree.Dump

/-!
Outlines: what a dump shows of a tree, before it becomes text. The text of an outline, whatever stands behind
its closing parenthesis, determines the outline.
-/

namespace EcmaFold

/-- What the forms of a dump are called. -/
inductive Title where
  | program | funcDecl | block | varStmt | declaration | emptyStmt | exprStmt | ifStmt | doWhile | whileStmt
  | forStmt | forVar | forIn | forInVar | continueStmt | breakStmt | returnStmt | withStmt | labeled | switchStmt
  | caseClause | defaultClause | throwStmt | tryStmt | catchClause | debugger
  | sequence | assign | ternary | tier (tier : Tier) | unary | update | call | newExpr | member | instantiation
  | arguments | index | property
  | thisExpr | ident | nullLit | boolLit | numberLit | stringLit | arrayLit | paren | funcExpr
  deriving DecidableEq

namespace Title

def text : Title → String
  | program => "Program"
  | funcDecl => "FuncDecl"
  | block => "Block"
  | varStmt => "Var"
  | declaration => "VarDecl"
  | emptyStmt => "Empty"
  | exprStmt => "ExprStmt"
  | ifStmt => "If"
  | doWhile => "DoWhile"
  | whileStmt => "While"
  | forStmt => "For"
  | forVar => "ForVar"
  | forIn => "ForIn"
  | forInVar => "ForInVar"
  | continueStmt => "Continue"
  | breakStmt => "Break"
  | returnStmt => "Return"
  | withStmt => "With"
  | labeled => "Labeled"
  | switchStmt => "Switch"
  | caseClause => "Case"
  | defaultClause => "Default"
  | throwStmt => "Throw"
  | tryStmt => "Try"
  | catchClause => "Catch"
  | debugger => "Debugger"
  | sequence => "Sequence"
  | assign => "Assign"
  | ternary => "Cond"
  | tier t => Dump.tierName t
  | unary => "Unary"
  | update => "Postfix"
  | call => "Call"
  | newExpr => "New"
  | member => "Member"
  | instantiation => "Instantiation"
  | arguments => "Args"
  | index => "Index"
  | property => "Property"
  | thisExpr => "This"
  | ident => "Ident"
  | nullLit => "Null"
  | boolLit => "Bool"
  | numberLit => "Number"
  | stringLit => "String"
  | arrayLit => "Array"
  | paren => "Paren"
  | funcExpr => "Function"

def all : List Title :=
  [program, funcDecl, block, varStmt, declaration, emptyStmt, exprStmt, ifStmt, doWhile, whileStmt, forStmt, forVar,
    forIn, forInVar, continueStmt, breakStmt, returnStmt, withStmt, labeled, switchStmt, caseClause, defaultClause,
    throwStmt, tryStmt, catchClause, debugger, sequence, assign, ternary, tier .logicalOr, tier .logicalAnd,
    tier .bitOr, tier .bitXor, tier .bitAnd, tier .equality, tier .relational, tier .shift, tier .additive,
    tier .multiplicative, unary, update, call, newExpr, member, instantiation, arguments, index, property, thisExpr,
    ident, nullLit, boolLit, numberLit, stringLit, arrayLit, paren, funcExpr]

theorem mem_all (title : Title) : title ∈ all := by
  cases title with
  | tier t => cases t <;> decide
  | _ => decide

end Title

/-- What stands behind the title of a form. -/
inductive Attribute where
  | word (text : Bytes)
  | params (names : List Bytes)
  | quoted (text : Bytes)

def Attribute.text : Attribute → Bytes
  | word text => text
  | params names => Dump.params names
  | quoted text => Quoted.debug text

/-- Forms one after the other, each with the label before it and the forms in it. -/
inductive Outline where
  | nil
  | item (label : Bytes) (title : Title) (attributes : List Attribute) (below rest : Outline)

/-! Reading bytes up to a delimiter -/

/-- A byte of a word in a dump: no blank, parenthesis or quote. -/
def Dump.isWordByte (b : UInt8) : Bool := b ∉ utf8 " \n()\""

/-- A byte of a label: a space, or a byte of a word. -/
def Dump.isLabelByte (b : UInt8) : Bool := b == 0x20 || isWordByte b

theorem Dump.isWordByte_of_isWordByte {b : UInt8} (inWord : Bytes.isWordByte b = true) : isWordByte b = true := by
  have delimiters : (utf8 " \n()\"").all (!Bytes.isWordByte ·) = true := by decide
  refine decide_eq_true fun member => ?_
  have other := List.all_eq_true.mp delimiters b member
  rw [inWord] at other
  cases other

/-- Two texts of bytes that the text behind does not begin with. -/
theorem Bytes.append_inj_of_ends {p : UInt8 → Bool} {text text' rest rest' : Bytes} (all : ∀ b ∈ text, p b = true)
    (all' : ∀ b ∈ text', p b = true) (ends : ∀ b ∈ rest.head?, p b = false) (ends' : ∀ b ∈ rest'.head?, p b = false)
    (same : text ++ rest = text' ++ rest') : text = text' ∧ rest = rest' := by
  have taken := congrArg (List.takeWhile p) same
  rw [Number.takeWhile_append all ends, Number.takeWhile_append all' ends'] at taken
  subst taken
  exact ⟨rfl, List.append_cancel_left same⟩

namespace Dump

/-- Here a form goes on with a line or is closed. -/
def AtLine (rest : Bytes) : Prop := ∃ b tail, rest = b :: tail ∧ (b = 0x0A ∨ b = 0x29)

/-- Here a word is over. -/
def AtEnd (rest : Bytes) : Prop := AtLine rest ∨ ∃ tail, rest = 0x20 :: tail

theorem AtEnd.head {rest : Bytes} (atEnd : AtEnd rest) : ∀ b ∈ rest.head?, isWordByte b = false := by
  obtain ⟨_, _, rfl, rfl | rfl⟩ | ⟨_, rfl⟩ := atEnd <;> rintro b ⟨⟩ <;> rfl

theorem atEnd_spaced {α : Type} (text : α → Bytes) (list : List α) {rest : Bytes} (atLine : AtLine rest) :
    AtEnd (list.flatMap (fun a => utf8 " " ++ text a) ++ rest) := by
  cases list with
  | nil => exact .inl atLine
  | cons a list => exact .inr ⟨_, rfl⟩

/-- Texts with a space before each, if each by itself is determined by its text. -/
theorem spaced_inj {α : Type} {P : α → Prop} {text : α → Bytes} {list list' : List α} {rest rest' : Bytes}
    (one : ∀ {a a' : α} {rest rest' : Bytes}, P a → P a' → AtEnd rest → AtEnd rest' →
      text a ++ rest = text a' ++ rest' → a = a' ∧ rest = rest')
    (all : ∀ a ∈ list, P a) (all' : ∀ a ∈ list', P a) (atLine : AtLine rest) (atLine' : AtLine rest')
    (same : list.flatMap (fun a => utf8 " " ++ text a) ++ rest =
      list'.flatMap (fun a => utf8 " " ++ text a) ++ rest') : list = list' ∧ rest = rest' := by
  have noSpace : ∀ {rest tail : Bytes}, AtLine rest → rest ≠ 0x20 :: tail := by
    rintro _ _ ⟨_, _, rfl, rfl | rfl⟩ ⟨⟩
  induction list generalizing list' with
  | nil =>
    cases list' with
    | nil => exact ⟨rfl, same⟩
    | cons _ _ => exact (noSpace atLine same).elim
  | cons a list ih =>
    cases list' with
    | nil => exact (noSpace atLine' same.symm).elim
    | cons a' list' =>
      obtain ⟨first, more⟩ := List.forall_mem_cons.mp all
      obtain ⟨first', more'⟩ := List.forall_mem_cons.mp all'
      rw [List.flatMap_cons, List.flatMap_cons, List.append_assoc, List.append_assoc, List.append_assoc,
        List.append_assoc, List.append_cancel_left_eq] at same
      obtain ⟨rfl, tails⟩ := one first first' (atEnd_spaced text list atLine) (atEnd_spaced text list' atLine') same
      obtain ⟨rfl, ended⟩ := ih more more' tails
      exact ⟨rfl, ended⟩

/-- A word in a dump. -/
def IsWord (text : Bytes) : Prop := text ≠ [] ∧ text.all isWordByte = true

theorem IsWord.exists_head {text : Bytes} (isWord : IsWord text) (rest : Bytes) :
    ∃ b tail, text ++ rest = b :: tail ∧ isWordByte b = true := by
  obtain ⟨nonempty, all⟩ := isWord
  cases text with
  | nil => exact absurd rfl nonempty
  | cons b tail => exact ⟨b, tail ++ rest, rfl, List.all_eq_true.mp all b List.mem_cons_self⟩

theorem word_inj {text text' rest rest' : Bytes} (isWord : IsWord text) (isWord' : IsWord text') (atEnd : AtEnd rest)
    (atEnd' : AtEnd rest') (same : text ++ rest = text' ++ rest') : text = text' ∧ rest = rest' :=
  Bytes.append_inj_of_ends (List.all_eq_true.mp isWord.2) (List.all_eq_true.mp isWord'.2) atEnd.head atEnd'.head same

theorem join_cons (first : Bytes) (names : List Bytes) :
    Bytes.join (utf8 " ") (first :: names) = first ++ names.flatMap (fun n => utf8 " " ++ n) := by
  induction names generalizing first with
  | nil => simp [Bytes.join]
  | cons second names ih => rw [Bytes.join, ih, List.flatMap_cons, List.append_assoc, List.append_assoc]; simp

theorem params_inj {names names' : List Bytes} {rest rest' : Bytes} (all : ∀ n ∈ names, IsWord n)
    (all' : ∀ n ∈ names', IsWord n) (same : params names ++ rest = params names' ++ rest') :
    names = names' ∧ rest = rest' := by
  have closes (rest : Bytes) : AtLine (utf8 ")" ++ rest) := ⟨0x29, rest, rfl, .inr rfl⟩
  have noWord {n : Bytes} (isWord : IsWord n) (rest rest' : Bytes) : utf8 ")" ++ rest ≠ n ++ rest' := by
    obtain ⟨b, tail, head, inWord⟩ := isWord.exists_head rest'
    rw [head]
    rintro ⟨⟩
    cases inWord
  rw [params, params, List.append_assoc, List.append_assoc, List.append_assoc, List.append_assoc,
    List.append_cancel_left_eq] at same
  cases names with
  | nil =>
    cases names' with
    | nil => exact ⟨rfl, List.append_cancel_left same⟩
    | cons first' names' =>
      rw [join_cons, List.append_assoc] at same
      exact (noWord (all' first' List.mem_cons_self) _ _ same).elim
  | cons first names =>
    obtain ⟨isWord, more⟩ := List.forall_mem_cons.mp all
    rw [join_cons, List.append_assoc] at same
    cases names' with
    | nil => exact (noWord isWord _ _ same.symm).elim
    | cons first' names' =>
      obtain ⟨isWord', more'⟩ := List.forall_mem_cons.mp all'
      rw [join_cons, List.append_assoc] at same
      obtain ⟨rfl, tails⟩ :=
        word_inj isWord isWord' (atEnd_spaced id names (closes rest)) (atEnd_spaced id names' (closes rest')) same
      obtain ⟨rfl, ended⟩ := spaced_inj word_inj more more' (closes rest) (closes rest') tails
      exact ⟨rfl, List.append_cancel_left ended⟩

end Dump

open Dump

namespace Title

theorem text_isWord (title : Title) : IsWord (utf8 title.text) := by
  have table : ∀ title ∈ all, utf8 title.text ≠ [] ∧ (utf8 title.text).all isWordByte = true := by decide +kernel
  exact table title title.mem_all

theorem text_inj {title title' : Title} (same : utf8 title.text = utf8 title'.text) : title = title' := by
  have table : ∀ title ∈ all, ∀ title' ∈ all, utf8 title.text = utf8 title'.text → title = title' := by decide +kernel
  exact table title title.mem_all title' title'.mem_all same

end Title

/-- The words of an attribute can be told apart. -/
def Attribute.Clean : Attribute → Prop
  | word text => IsWord text
  | params names => ∀ n ∈ names, IsWord n
  | quoted _ => True

theorem Attribute.text_inj {a a' : Attribute} {rest rest' : Bytes} (clean : a.Clean)
    (clean' : a'.Clean) (atEnd : AtEnd rest) (atEnd' : AtEnd rest')
    (same : a.text ++ rest = a'.text ++ rest') : a = a' ∧ rest = rest' := by
  have noWord {text : Bytes} (isWord : IsWord text) {b : UInt8} (other : isWordByte b = false) (rest tail : Bytes) :
      text ++ rest ≠ b :: tail := by
    obtain ⟨c, more, head, inWord⟩ := isWord.exists_head rest
    rw [head]
    rintro ⟨⟩
    rw [other] at inWord
    cases inWord
  cases a with
  | word text =>
    cases a' with
    | word text' =>
      obtain ⟨rfl, ended⟩ := word_inj clean clean' atEnd atEnd' same
      exact ⟨rfl, ended⟩
    | params _ => exact (noWord clean (b := 0x28) rfl _ _ same).elim
    | quoted _ => exact (noWord clean (b := 0x22) rfl _ _ same).elim
  | params names =>
    cases a' with
    | word text' => exact (noWord clean' (b := 0x28) rfl _ _ same.symm).elim
    | params names' =>
      obtain ⟨rfl, ended⟩ := params_inj clean clean' same
      exact ⟨rfl, ended⟩
    | quoted _ => cases same
  | quoted text =>
    cases a' with
    | word text' => exact (noWord clean' (b := 0x22) rfl _ _ same.symm).elim
    | params _ => cases same
    | quoted text' =>
      obtain ⟨rfl, ended⟩ := Quoted.debug_append_inj same
      exact ⟨rfl, ended⟩

namespace Outline

/-- The labels and the words of an outline can be told from what follows them. -/
def Clean : Outline → Prop
  | nil => True
  | item label _ attributes below rest =>
    label.all isLabelByte = true ∧ (∀ a ∈ attributes, a.Clean) ∧ below.Clean ∧ rest.Clean

/-- The lines of an outline that stands `depth` steps deep in a dump whose lines begin with `base`. -/
def lines (base : Bytes) : Outline → (depth : Nat) → Bytes
  | nil, _ => []
  | item label title attributes below rest, depth =>
    utf8 "\n" ++ base ++ Bytes.spaces (2 * depth) ++ label ++ utf8 "(" ++ utf8 title.text ++
      attributes.flatMap (fun a => utf8 " " ++ a.text) ++ below.lines base (depth + 1) ++ utf8 ")" ++
      rest.lines base depth

theorem atLine_lines (base : Bytes) (outline : Outline) (depth : Nat) (rest : Bytes) :
    AtLine (outline.lines base depth ++ (utf8 ")" ++ rest)) := by
  cases outline with
  | nil => exact ⟨0x29, rest, rfl, .inr rfl⟩
  | item => exact ⟨0x0A, _, rfl, .inl rfl⟩

/-- The lines of an outline and what is behind them up to the parenthesis that closes the form around them. -/
theorem lines_inj {base : Bytes} {outline outline' : Outline} (clean : outline.Clean) (clean' : outline'.Clean)
    {depth : Nat} {rest rest' : Bytes}
    (same : outline.lines base depth ++ (utf8 ")" ++ rest) = outline'.lines base depth ++ (utf8 ")" ++ rest')) :
    outline = outline' ∧ rest = rest' := by
  induction outline generalizing outline' depth rest rest' with
  | nil =>
    cases outline' with
    | nil => exact ⟨rfl, List.append_cancel_left same⟩
    | item => cases same
  | item label title attributes below more ihBelow ihMore =>
    cases outline' with
    | nil => cases same
    | item label' title' attributes' below' more' =>
      obtain ⟨isLabel, cleanAttributes, cleanBelow, cleanMore⟩ := clean
      obtain ⟨isLabel', cleanAttributes', cleanBelow', cleanMore'⟩ := clean'
      -- The label reaches up to the opening parenthesis; the title and each attribute are words of their own.
      simp only [lines, List.append_assoc, List.append_cancel_left_eq] at same
      obtain ⟨rfl, opened⟩ := Bytes.append_inj_of_ends (List.all_eq_true.mp isLabel) (List.all_eq_true.mp isLabel')
        (by rintro b ⟨⟩; rfl) (by rintro b ⟨⟩; rfl) same
      rw [List.append_cancel_left_eq] at opened
      have atLine := atLine_lines base below (depth + 1) (more.lines base depth ++ (utf8 ")" ++ rest))
      have atLine' := atLine_lines base below' (depth + 1) (more'.lines base depth ++ (utf8 ")" ++ rest'))
      obtain ⟨titles, titled⟩ := word_inj title.text_isWord title'.text_isWord
        (atEnd_spaced Attribute.text attributes atLine) (atEnd_spaced Attribute.text attributes' atLine') opened
      obtain rfl := Title.text_inj titles
      obtain ⟨rfl, inside⟩ := spaced_inj Attribute.text_inj cleanAttributes cleanAttributes' atLine atLine' titled
      obtain ⟨rfl, closed⟩ := ihBelow cleanBelow cleanBelow' inside
      obtain ⟨rfl, ended⟩ := ihMore cleanMore cleanMore' closed
      exact ⟨rfl, ended⟩

end Outline

end EcmaFold
