import EcmaFold.Compile
import EcmaFold.Proofs.Tree.Erased

/-!
Lowering does not look at places: trees that are equal up to positions have the same value and perform
the same instructions. Only the entries of the log name places.
-/

namespace EcmaFold

/-- Two computations with the same value and the same instructions. -/
def Lowered.Same {α : Type} (x y : Lowered α) : Prop := x.value = y.value ∧ x.trace = y.trace

namespace Lowered

variable {α β : Type}

theorem Same.refl (x : Lowered α) : x.Same x := ⟨rfl, rfl⟩

theorem Same.bind {x y : Lowered α} {f g : α → Lowered β} (first : x.Same y)
    (next : ∀ v, (f v).Same (g v)) : (x >>= f).Same (y >>= g) := by
  obtain ⟨value, trace⟩ := first
  change (f x.value).value = (g y.value).value ∧
    x.trace ++ (f x.value).trace = y.trace ++ (g y.value).trace
  rw [value, trace, (next y.value).1, (next y.value).2]
  exact ⟨rfl, rfl⟩

theorem unsupported_same (construct : Bytes) (offset offset' : Nat) :
    (unsupported construct offset).Same (unsupported construct offset') := ⟨rfl, rfl⟩

theorem controlFlow_same (construct : String) (offset offset' : Nat) :
    (controlFlow construct offset).Same (controlFlow construct offset') := ⟨rfl, rfl⟩

theorem propagate_same (construct : Bytes) (offset offset' : Nat) (operands : List Value) :
    (propagate construct offset operands).Same (propagate construct offset' operands) := by
  unfold propagate
  split
  · exact .refl _
  · exact unsupported_same _ _ _

end Lowered

namespace Lowering

open Lowered

theorem arithmetic_same (op : BinaryOp) (onInts onFloats : BinaryInstr) (offset offset' : Nat)
    (x y : Value) :
    (arithmetic op onInts onFloats offset x y).Same (arithmetic op onInts onFloats offset' x y) := by
  unfold arithmetic
  split
  · refine Same.bind (.refl _) fun v => ?_
    split
    · exact unsupported_same _ _ _
    · exact .refl _
  · exact propagate_same _ _ _ _

theorem onWords_same (op : BinaryOp) (instr : BinaryInstr) (offset offset' : Nat) (x y : Value) :
    (onWords op instr offset x y).Same (onWords op instr offset' x y) := by
  unfold onWords
  split
  · exact .refl _
  · exact propagate_same _ _ _ _

theorem order_same (op : BinaryOp) (pred : Pred) (offset offset' : Nat) (x y : Value) :
    (order op pred offset x y).Same (order op pred offset' x y) := by
  unfold order
  split
  · exact .refl _
  · exact propagate_same _ _ _ _

theorem equality_same (op : BinaryOp) (pred : Pred) (offset offset' : Nat) (x y : Value) :
    (equality op pred offset x y).Same (equality op pred offset' x y) := by
  unfold equality
  split
  · split
    · exact .refl _
    · split
      · exact .refl _
      · split
        · exact .refl _
        · split
          · exact .refl _
          · exact unsupported_same _ _ _
  · exact propagate_same _ _ _ _

theorem logical_same (op : BinaryOp) (offset offset' : Nat) (x y : Value) :
    (logical op offset x y).Same (logical op offset' x y) := by
  unfold logical
  split
  · split
    · exact .refl _
    · exact propagate_same _ _ _ _
  · exact propagate_same _ _ _ _

theorem binaryOp_same (op : BinaryOp) (offset offset' : Nat) (x y : Value) :
    (binaryOp op offset x y).Same (binaryOp op offset' x y) := by
  cases op <;> first
    | exact arithmetic_same _ _ _ _ _ _ _
    | exact onWords_same _ _ _ _ _ _
    | exact order_same _ _ _ _ _ _
    | exact equality_same _ _ _ _ _ _
    | exact logical_same _ _ _ _ _
    | exact unsupported_same _ _ _

theorem unaryOps_same (ops : List UnaryOp) (offset offset' : Nat) (v : Value) :
    (unaryOps ops offset v).Same (unaryOps ops offset' v) := by
  induction ops with
  | nil => exact .refl _
  | cons op rest ih =>
    refine ih.bind fun v => ?_
    unfold unaryOp
    cases unaryResult? op v with
    | none => exact propagate_same _ _ _ _
    | some _ => exact .refl _

end Lowering

namespace Tree

open Lowered Lowering

/-- A tree and the same tree without places have the same value and perform the same instructions. -/
theorem lower_erase {shape : Shape} (tree : Tree shape) (before : Value) :
    (tree.erase.lower before).Same (tree.lower before) := by
  induction tree generalizing before with
  | cons _ _ ihHead ihTail => exact (ihHead _).bind fun v => ihTail v
  | present _ ih => exact ih _
  | program _ _ ih => exact ih _
  | ofStatement _ ih => exact ih _
  | ofBlock _ ih => exact ih _
  | block _ _ ih => exact ih _
  | varStmt _ _ ih => exact ih _
  | declaration _ _ _ ih => exact ih _
  | exprStmt _ _ ih => exact ih _
  | ifStmt _ _ _ _ ihCond ihYes ihNo =>
    exact (ihCond _).bind fun _ => (ihYes _).bind fun _ => (ihNo _).bind fun _ =>
      controlFlow_same _ _ _
  | doWhile _ _ _ ihBody ihCond =>
    exact (ihBody _).bind fun _ => (ihCond _).bind fun _ => controlFlow_same _ _ _
  | whileStmt _ _ _ ihCond ihBody =>
    exact (ihCond _).bind fun _ => (ihBody _).bind fun _ => controlFlow_same _ _ _
  | forStmt _ _ _ _ _ ihInit ihCond ihPost ihBody =>
    exact (ihInit _).bind fun _ => (ihCond _).bind fun _ => (ihPost _).bind fun _ =>
      (ihBody _).bind fun _ => controlFlow_same _ _ _
  | forVar _ _ _ _ _ ihDecls ihCond ihPost ihBody =>
    exact (ihDecls _).bind fun _ => (ihCond _).bind fun _ => (ihPost _).bind fun _ =>
      (ihBody _).bind fun _ => controlFlow_same _ _ _
  | forIn _ _ _ _ _ ihObject ihBody =>
    exact (ihObject _).bind fun _ => (ihBody _).bind fun _ => controlFlow_same _ _ _
  | forInVar _ _ _ _ ihDecl ihObject ihBody =>
    exact (ihDecl _).bind fun _ => (ihObject _).bind fun _ => (ihBody _).bind fun _ =>
      controlFlow_same _ _ _
  | returnStmt _ _ ih => exact (ih _).bind fun _ => controlFlow_same _ _ _
  | withStmt _ _ _ ihObject ihBody =>
    exact (ihObject _).bind fun _ => (ihBody _).bind fun _ => controlFlow_same _ _ _
  | labeled _ _ _ ih => exact ih _
  | switchStmt _ _ _ _ _ ihTag ihCases ihFallback ihTrailing =>
    exact (ihTag _).bind fun _ => (ihCases _).bind fun _ => (ihFallback _).bind fun _ =>
      (ihTrailing _).bind fun _ => controlFlow_same _ _ _
  | caseClause _ _ _ ihValue ihBody => exact (ihValue _).bind fun _ => ihBody _
  | defaultClause _ _ ih => exact ih _
  | throwStmt _ _ ih => exact (ih _).bind fun _ => controlFlow_same _ _ _
  | tryStmt _ _ _ _ ihBody ihHandler ihCleanup =>
    exact (ihBody _).bind fun _ => (ihHandler _).bind fun _ => (ihCleanup _).bind fun _ =>
      controlFlow_same _ _ _
  | catchClause _ _ _ ih => exact ih _
  | sequence _ _ ih => exact ih _
  | assign _ targets _ _ ihValue =>
    cases targets with
    | nil => exact ihValue _
    | cons _ _ => exact (ihValue _).bind fun _ => unsupported_same _ _ _
  | plain _ _ ih => exact ih _
  | ternary _ _ _ _ ihTest ihYes ihNo =>
    refine (ihTest _).bind fun test => (ihYes _).bind fun yes => (ihNo _).bind fun no => ?_
    cases test.truthy? with
    | none => exact propagate_same _ _ _ _
    | some _ => exact .refl _
  | level _ _ _ _ ihHead ihOperations => exact (ihHead _).bind fun v => ihOperations v
  | operation _ _ _ _ ih => exact (ih _).bind fun _ => binaryOp_same _ _ _ _ _
  | unary _ _ _ ih => exact (ih _).bind fun v => unaryOps_same _ _ _ v
  | update _ _ op ih =>
    refine (ih _).bind fun v => ?_
    cases op with
    | none => exact .refl _
    | some _ => exact propagate_same _ _ _ _
  | newExpr _ count _ ih =>
    cases count with
    | zero => exact ih _
    | succ _ => exact unsupported_same _ _ _
  | member _ _ modifiers ihObject _ =>
    cases modifiers with
    | nil => exact ihObject _
    | cons _ _ => exact unsupported_same _ _ _
  | ofInstantiation _ ih => exact ih _
  | instantiated _ ih => exact ih _
  | paren _ _ ih => exact ih _
  | numberLit _ value =>
    obtain ⟨_, _ | _⟩ := value <;> exact .refl _
  | _ => exact ⟨rfl, rfl⟩

/-- Trees that are equal up to positions have the same value and perform the same instructions. -/
theorem lower_same_of_erase_eq {shape : Shape} {tree tree' : Tree shape} (same : tree.erase = tree'.erase)
    (before : Value) : (tree.lower before).Same (tree'.lower before) := by
  have left := tree.lower_erase before
  have right := tree'.lower_erase before
  rw [same] at left
  exact ⟨left.1.symm.trans right.1, left.2.symm.trans right.2⟩

end Tree

end EcmaFold
