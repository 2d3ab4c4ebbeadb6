import EcmaFold.Proofs.Lowering.Basic
import EcmaFold.Proofs.Lowering.Placeless
import EcmaFold.Proofs.Tree.Literal

/-!
A constant never depends on what was not lowered. An operator that meets an unsupported operand gives an
unsupported value, so the value of a tree is either unsupported or stays what it is when some of its
identifiers become literals.
-/

namespace EcmaFold

/-- A value is no more than a guess at another: it is unsupported, or it is that value. -/
def Value.Approximates (v w : Value) : Prop := v.isUnsupported = true ∨ v = w

theorem Value.Approximates.refl (v : Value) : v.Approximates v := .inr rfl

namespace Value

variable {v : Value} (unknown : v.isUnsupported = true)
include unknown

theorem isNumeric_of_isUnsupported : v.isNumeric = false := by
  cases v with
  | unsupported _ => rfl
  | _ => cases unknown

theorem isConst_of_isUnsupported : v.isConst = false := by
  cases v with
  | unsupported _ => rfl
  | _ => cases unknown

theorem truthy?_of_isUnsupported : v.truthy? = none := by
  cases v with
  | unsupported _ => rfl
  | _ => cases unknown

end Value

namespace Lowered

/-- What is propagated is unsupported, whatever the operands are. -/
theorem propagate_isUnsupported (construct : Bytes) (offset : Nat) (operands : List Value) :
    (propagate construct offset operands).value.isUnsupported = true := by
  unfold propagate
  split
  · next operand found => exact List.find?_some found
  · rfl

end Lowered

namespace Lowering

open Lowered

section Strict

variable {x y : Value} (unknown : x.isUnsupported = true ∨ y.isUnsupported = true)
include unknown

theorem not_both_numeric : (x.isNumeric && y.isNumeric) = false := by
  rcases unknown with unknown | unknown
  · rw [Value.isNumeric_of_isUnsupported unknown, Bool.false_and]
  · rw [Value.isNumeric_of_isUnsupported unknown, Bool.and_false]

theorem not_both_const : (x.isConst && y.isConst) = false := by
  rcases unknown with unknown | unknown
  · rw [Value.isConst_of_isUnsupported unknown, Bool.false_and]
  · rw [Value.isConst_of_isUnsupported unknown, Bool.and_false]

theorem arithmetic_isUnsupported (op : BinaryOp) (onInts onFloats : BinaryInstr) (offset : Nat) :
    (arithmetic op onInts onFloats offset x y).value.isUnsupported = true := by
  rw [arithmetic, not_both_numeric unknown]
  exact propagate_isUnsupported _ _ _

theorem onWords_isUnsupported (op : BinaryOp) (instr : BinaryInstr) (offset : Nat) :
    (onWords op instr offset x y).value.isUnsupported = true := by
  rw [onWords, not_both_numeric unknown]
  exact propagate_isUnsupported _ _ _

theorem order_isUnsupported (op : BinaryOp) (pred : Pred) (offset : Nat) :
    (order op pred offset x y).value.isUnsupported = true := by
  rw [order, not_both_numeric unknown]
  exact propagate_isUnsupported _ _ _

theorem equality_isUnsupported (op : BinaryOp) (pred : Pred) (offset : Nat) :
    (equality op pred offset x y).value.isUnsupported = true := by
  unfold equality
  rw [not_both_const unknown]
  exact propagate_isUnsupported _ _ _

/-- Also the operand that would not be selected has to be known. -/
theorem logical_isUnsupported (op : BinaryOp) (offset : Nat) :
    (logical op offset x y).value.isUnsupported = true := by
  unfold logical
  split
  · next truth known =>
    have right : y.isUnsupported = true := by
      refine unknown.resolve_left fun left => ?_
      rw [Value.truthy?_of_isUnsupported left] at known
      cases known
    rw [Value.isConst_of_isUnsupported right]
    exact propagate_isUnsupported _ _ _
  · exact propagate_isUnsupported _ _ _

/-- A binary operator is strict: with an operand that is not lowered it is not lowered. -/
theorem binaryOp_isUnsupported (op : BinaryOp) (offset : Nat) :
    (binaryOp op offset x y).value.isUnsupported = true := by
  cases op with
  | add | sub | mul | div | mod => exact arithmetic_isUnsupported unknown _ _ _ _
  | shl | sar | shr | bitAnd | bitOr | bitXor => exact onWords_isUnsupported unknown _ _ _
  | lt | gt | le | ge => exact order_isUnsupported unknown _ _ _
  | eq | ne | strictEq | strictNe => exact equality_isUnsupported unknown _ _ _
  | land | lor => exact logical_isUnsupported unknown _ _
  | instanceOf | isIn => rfl

end Strict

/-- A unary operator is strict. -/
theorem unaryOp_isUnsupported (op : UnaryOp) (offset : Nat) {v : Value} (unknown : v.isUnsupported = true) :
    (unaryOp op offset v).value.isUnsupported = true := by
  have refused : unaryResult? op v = none := by
    cases v with
    | unsupported _ => cases op <;> rfl
    | _ => cases unknown
  rw [unaryOp, refused]
  exact propagate_isUnsupported _ _ _

theorem binaryOp_approximates (op : BinaryOp) (offset offset' : Nat) {x x' y y' : Value}
    (left : x.Approximates x') (right : y.Approximates y') :
    (binaryOp op offset x y).value.Approximates (binaryOp op offset' x' y').value := by
  rcases left with unknown | rfl
  · exact .inl (binaryOp_isUnsupported (.inl unknown) op offset)
  rcases right with unknown | rfl
  · exact .inl (binaryOp_isUnsupported (.inr unknown) op offset)
  · exact .inr (binaryOp_same op offset offset' x y).1

theorem unaryOps_approximates (ops : List UnaryOp) (offset : Nat) {v v' : Value} (guess : v.Approximates v') :
    (unaryOps ops offset v).value.Approximates (unaryOps ops offset v').value := by
  induction ops with
  | nil => exact guess
  | cons op rest ih =>
    rw [unaryOps, unaryOps, bind_value, bind_value]
    rcases ih with unknown | same
    · exact .inl (unaryOp_isUnsupported op offset unknown)
    · rw [same]
      exact .refl _

/-- What a conditional does with its lowered parts. -/
def conditional (offset : Nat) (test yes no : Value) : Lowered Value :=
  match test.truthy? with
  | some truth => return if truth then yes else no
  | none => propagate (utf8 "conditional") offset [test]

/-- Without the test neither branch is chosen. -/
theorem conditional_approximates (offset : Nat) {test test' yes yes' no no' : Value}
    (guessTest : test.Approximates test') (guessYes : yes.Approximates yes') (guessNo : no.Approximates no') :
    (conditional offset test yes no).value.Approximates (conditional offset test' yes' no').value := by
  unfold conditional
  rcases guessTest with unknown | rfl
  · rw [Value.truthy?_of_isUnsupported unknown]
    exact .inl (propagate_isUnsupported _ _ _)
  · cases test.truthy? with
    | none => exact .refl _
    | some truth =>
      cases truth with
      | true => exact guessYes
      | false => exact guessNo

end Lowering

namespace Tree

open Lowered Lowering

/-- The value of a tree approximates its value with literals for some of its leaves, and so it does when the
value of what stands before is only approximated. -/
theorem lower_approximates_fill {shape : Shape} (tree : Tree shape) (f : Filling) {before before' : Value}
    (guess : before.Approximates before') :
    (tree.lower before).value.Approximates ((tree.fill f).lower before').value := by
  induction tree generalizing f before before' with
  | nil => exact guess
  | absent => exact guess
  | cons head tail ihHead ihTail => exact ihTail _ (ihHead _ guess)
  | present _ ih => exact ih _ guess
  | ofStatement _ ih => exact ih _ guess
  | ofBlock _ ih => exact ih _ guess
  | declaration _ _ _ ih => exact ih _ guess
  | ofInstantiation _ ih => exact ih _ guess
  | instantiated _ ih => exact ih _ guess
  | program _ _ ih => exact ih _ (.refl _)
  | block _ _ ih => exact ih _ (.refl _)
  | varStmt _ _ ih => exact ih _ (.refl _)
  | exprStmt _ _ ih => exact ih _ (.refl _)
  | labeled _ _ _ ih => exact ih _ (.refl _)
  | caseClause _ _ _ _ ihBody => exact ihBody _ (.refl _)
  | defaultClause _ _ ih => exact ih _ (.refl _)
  | catchClause _ _ _ ih => exact ih _ (.refl _)
  | sequence _ _ ih => exact ih _ (.refl _)
  | plain _ _ ih => exact ih _ (.refl _)
  | paren _ _ ih => exact ih _ (.refl _)
  | assign _ targets _ _ ihValue =>
    cases targets with
    | nil => exact ihValue _ (.refl _)
    | cons _ _ => exact .refl _
  | ternary _ _ _ _ ihTest ihYes ihNo =>
    exact conditional_approximates _ (ihTest _ (.refl _)) (ihYes _ (.refl _)) (ihNo _ (.refl _))
  | level _ _ _ _ ihHead ihOperations => exact ihOperations _ (ihHead _ (.refl _))
  | operation _ _ _ _ ih => exact binaryOp_approximates _ _ _ guess (ih _ (.refl _))
  | unary _ _ _ ih => exact unaryOps_approximates _ _ (ih _ (.refl _))
  | update _ _ op ih =>
    cases op with
    | none => exact ih _ (.refl _)
    | some _ => exact .inl (propagate_isUnsupported _ _ _)
  | newExpr _ count _ ih =>
    cases count with
    | zero => exact ih _ (.refl _)
    | succ _ => exact .refl _
  | member _ _ modifiers ihObject _ =>
    cases modifiers with
    | nil => exact ihObject _ (.refl _)
    | cons _ _ => exact .refl _
  | target _ _ _ => exact guess
  | arguments _ _ _ => exact guess
  | ofArguments _ _ => exact guess
  | index _ _ _ => exact guess
  | property _ _ => exact guess
  | thisExpr _ => exact .inl rfl
  | ident _ _ => exact .inl rfl
  | numberLit _ value =>
    obtain ⟨_, _ | _⟩ := value <;> exact .refl _
  | _ => exact .refl _

end Tree

namespace Program

/-- A constant result does not depend on an operand that was not lowered: a program is unsupported, or its
value is the same with literals in place of any of its identifiers and of any `this`. -/
theorem compile_fill (program : Program) (filling : Filling) :
    program.compile.value.isUnsupported = true ∨
      program.compile.value = (Program.compile { program with tree := program.tree.fill filling }).value :=
  program.tree.lower_approximates_fill filling (.refl .void)

end Program

end EcmaFold
