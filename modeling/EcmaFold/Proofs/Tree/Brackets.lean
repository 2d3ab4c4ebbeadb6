import Mathlib.Algebra.Ring.Int.Defs
import EcmaFold.Proofs.Tree.Yield

/-!
The brackets of a tree: its tokens close as many as they open.
-/

namespace EcmaFold

/-- How many brackets a punctuator opens and does not close. -/
def Punct.weight : Punct → Int
  | lparen | lbracket | lbrace => 1
  | rparen | rbracket | rbrace => -1
  | _ => 0

/-- How many brackets a token opens and does not close. -/
def Token.weight : Token → Int
  | punct p => p.weight
  | _ => 0

namespace Token

@[simp] theorem number_weight (value : Number) : (number value).weight = 0 := rfl

@[simp] theorem string_weight (value : Bytes) : (string value).weight = 0 := rfl

@[simp] theorem name_weight (spelling : Bytes) : (name spelling).weight = 0 := rfl

@[simp] theorem punct_weight (p : Punct) : (punct p).weight = p.weight := rfl

@[simp] theorem keyword_weight (w : Word) : (keyword w).weight = 0 := rfl

@[simp] theorem ofName_weight (spelling : Bytes) : (ofName spelling).weight = 0 := by
  unfold ofName
  split <;> rfl

end Token

@[simp] theorem AssignOp.token_weight (op : AssignOp) : op.token.weight = 0 := by
  cases op <;> rfl

@[simp] theorem BinaryOp.token_weight (op : BinaryOp) : op.token.weight = 0 := by
  cases op <;> rfl

@[simp] theorem UnaryOp.token_weight (op : UnaryOp) : op.token.weight = 0 := by
  cases op <;> rfl

@[simp] theorem UpdateOp.token_weight (op : UpdateOp) : op.token.weight = 0 := by
  cases op <;> rfl

namespace Slot

def weight : Slot → Int
  | token t => t.weight
  | _ => 0

@[simp] theorem weight_token (t : Token) : (token t).weight = t.weight := rfl

@[simp] theorem weight_punct (p : Punct) : (punct p).weight = p.weight := rfl

@[simp] theorem weight_name (n : Bytes) : (name n).weight = 0 := rfl

@[simp] theorem weight_word (w : Word) : (word w).weight = 0 := rfl

@[simp] theorem weight_sameLine : sameLine.weight = 0 := rfl

@[simp] theorem weight_elision : elision.weight = 0 := rfl

/-- How many brackets the slots open and do not close. -/
def total (slots : List Slot) : Int := (slots.map weight).sum

@[simp] theorem total_nil : total [] = 0 := rfl

@[simp] theorem total_cons (slot : Slot) (slots : List Slot) : total (slot :: slots) = slot.weight + total slots := by
  simp [total]

@[simp] theorem total_append (slots slots' : List Slot) : total (slots ++ slots') = total slots + total slots' := by
  simp [total]

theorem total_flatMap_cons (slot : Slot) (parts : List (List Slot)) :
    total (parts.flatMap (slot :: ·)) = parts.length * slot.weight + total parts.flatten := by
  induction parts with
  | nil => simp
  | cons part rest ih =>
    simp only [List.flatMap_cons, List.cons_append, total_cons, total_append, ih, List.length_cons, Int.natCast_add,
      Int.cast_ofNat_Int, List.flatten_cons, Int.add_mul]
    omega

theorem total_separated {separator : List Slot} (weightless : total separator = 0) (parts : List (List Slot)) :
    total (separated separator parts) = total parts.flatten := by
  fun_induction separated separator parts with
  | case1 => rfl
  | case2 part => simp
  | case3 part rest _ ih => simp [weightless, ih]

theorem total_unaryOps (ops : List UnaryOp) : total (ops.map fun op => token op.token) = 0 := by
  induction ops with
  | nil => rfl
  | cons op ops ih => simp [ih]

theorem total_news (count : Nat) : total (List.replicate count (word .kwNew)) = 0 := by
  induction count with
  | zero => rfl
  | succ count ih => simp [List.replicate_succ, ih]

theorem total_head (w : Word) (slots : List Slot) : total (head w slots) = total slots := by
  simp only [head, total_cons, total_append, total_nil, weight_word, weight_punct, Punct.weight]
  omega

theorem total_jump (w : Word) (label : Option Bytes) : total (jump w label) = 0 := by
  cases label <;> rfl

theorem total_function (own : Option Bytes) (params : List Bytes) (body : List Slot) :
    total (function own params body) = total body := by
  have names : total (separated [punct .comma] (params.map fun n => [name n])) = 0 := by
    rw [total_separated rfl]
    induction params with
    | nil => rfl
    | cons n params ih => simpa using ih
  cases own <;>
    simp only [function, Option.toList, List.map_cons, List.map_nil, List.nil_append, List.cons_append, names,
      total_cons, total_append, total_nil, weight_word, weight_name, weight_punct, Punct.weight] <;>
    omega

end Slot

/-- A tree closes the brackets that it opens and no others. -/
theorem Tree.total_yield {shape : Shape} (tree : Tree shape) : Slot.total tree.yield = 0 := by
  induction tree with
  | cons _ _ ihHead ihTail =>
    rw [show (cons _ _).yield = _ from List.flatten_append, Slot.total_append, ihHead, ihTail]
    rfl
  | update _ _ op ih => cases op <;> simp_all [yield, slots]
  | _ =>
    simp_all [yield, slots, Slot.total_flatMap_cons, Slot.total_separated, Slot.total_unaryOps, Slot.total_news,
      Slot.total_head, Slot.total_jump, Slot.total_function, Punct.weight]

/-- The marks that slots cover have the brackets of the slots. -/
theorem Covers.total {slots : List Slot} {marks rest : List Mark} (covers : Covers slots marks rest) :
    (marks.map (·.1.weight)).sum = Slot.total slots + (rest.map (·.1.weight)).sum := by
  induction slots generalizing marks with
  | nil =>
    cases covers
    exact (Int.zero_add _).symm
  | cons slot slots ih =>
    cases slot with
    | token t =>
      obtain ⟨newline, more, rfl, tail⟩ := covers
      rw [List.map_cons, List.sum_cons, ih tail, Slot.total_cons, Int.add_assoc]
      rfl
    | sameLine => rw [ih covers.2, Slot.total_cons, Slot.weight_sameLine, Int.zero_add]
    | elision =>
      obtain ⟨commas, more, all, rfl, tail⟩ := covers
      have weightless : (commas.map (·.1.weight)).sum = 0 := by
        induction commas with
        | nil => rfl
        | cons comma commas ihCommas =>
          obtain ⟨isComma, others⟩ := List.forall_mem_cons.mp all
          rw [List.map_cons, List.sum_cons, ihCommas others, isComma]
          rfl
      rw [List.map_append, List.sum_append, weightless, ih tail, Int.zero_add, Slot.total_cons, Slot.weight_elision,
        Int.zero_add]

end EcmaFold
