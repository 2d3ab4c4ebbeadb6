import EcmaFold.Compile
import EcmaFold.Proofs.Lowering.Unknown
import EcmaFold.Proofs.TokenSequence

/-!
Where placeholders come from. An expression gives a constant or an unsupported value, and every placeholder that
lowering gives was noted: the log has the entry that was made together with it, however many operators and
statements have passed it on since.
-/

namespace EcmaFold

/-- The entry has a message and a field with a text. -/
def LogEntry.Tells (entry : LogEntry) (message key text : Bytes) : Prop :=
  entry.message = message ∧ ∀ lines : Lines, (key, .text text) ∈ entry.fields lines

namespace Value

/-- What an expression may give. -/
def IsResult (v : Value) : Prop := v.isConst = true ∨ v.isUnsupported = true

/-- The log has an entry about what the value stands in for. -/
def Logged (log : List LogEntry) : Value → Prop
  | unsupported construct => ∃ entry ∈ log, entry.Tells (utf8 "unsupported construct") (utf8 "construct") construct
  | controlFlow construct =>
    ∃ entry ∈ log, entry.Tells (utf8 "control flow not lowered") (utf8 "construct") construct
  | function name => ∃ entry ∈ log, entry.Tells (utf8 "function declaration not lowered") (utf8 "name") name
  | _ => True

variable {v : Value} {log log' : List LogEntry}

theorem IsResult.kind_notMem (result : v.IsResult) : v.kind ∉ [.void, .controlFlow, .function] := by
  rcases result with constant | unknown
  · cases v with
    | void | unsupported _ | controlFlow _ | function _ => cases constant
    | _ => exact of_decide_eq_true rfl
  · cases v with
    | unsupported _ => exact of_decide_eq_true rfl
    | _ => cases unknown

/-- Entries that are added do not matter. -/
theorem Logged.mono (logged : v.Logged log) (more : log ⊆ log') : v.Logged log' := by
  cases v with
  | unsupported _ | controlFlow _ | function _ =>
    obtain ⟨entry, member, tells⟩ := logged
    exact ⟨entry, more member, tells⟩
  | _ => trivial

theorem Logged.append (logged : v.Logged log) (log' : List LogEntry) : v.Logged (log ++ log') :=
  logged.mono (List.subset_append_left _ _)

theorem logged_of_isConst (constant : v.isConst = true) (log : List LogEntry) : v.Logged log := by
  cases v with
  | unsupported _ | controlFlow _ | function _ => cases constant
  | _ => trivial

theorem logged_unsupported {construct : Bytes} {offset : Nat} (noted : .unsupported construct offset ∈ log) :
    (unsupported construct).Logged log :=
  ⟨_, noted, rfl, fun _ => List.mem_cons_self⟩

end Value

/-! Operators -/

theorem BinaryInstr.fold_isResult (instr : BinaryInstr) (x y : Value) : (instr.fold x y).value.IsResult := by
  unfold fold
  split
  all_goals try split
  all_goals first | exact .inl rfl | exact .inr rfl

namespace Lowered

/-- How an operator answers: with a constant, with an operand that is unsupported, or with a placeholder of its own,
and only that one it notes. -/
inductive Answers (operands : List Value) (z : Lowered Value) : Prop where
  | gives (constant : z.value.isConst = true) (silent : z.log = [])
  | passes (operand : z.value ∈ operands) (unknown : z.value.isUnsupported = true) (silent : z.log = [])
  | notes {construct : Bytes} {offset : Nat} (own : z.value = .unsupported construct)
      (noted : z.log = [.unsupported construct offset])

variable {operands : List Value} {z : Lowered Value}

theorem Answers.isResult (answers : z.Answers operands) : z.value.IsResult := by
  cases answers with
  | gives constant _ => exact .inl constant
  | passes _ unknown _ => exact .inr unknown
  | notes own _ => exact .inr (congrArg Value.isUnsupported own)

theorem Answers.logged {earlier : List LogEntry} (answers : z.Answers operands)
    (known : ∀ operand ∈ operands, operand.Logged earlier) : z.value.Logged (earlier ++ z.log) := by
  cases answers with
  | gives constant _ => exact Value.logged_of_isConst constant _
  | passes operand _ _ => exact (known _ operand).append _
  | notes own noted =>
    rw [own, noted]
    exact Value.logged_unsupported (List.mem_append_right _ List.mem_cons_self)

theorem unsupported_answers (construct : Bytes) (offset : Nat) : (unsupported construct offset).Answers operands :=
  .notes rfl rfl

theorem propagate_answers (construct : Bytes) (offset : Nat) (operands : List Value) :
    (propagate construct offset operands).Answers operands := by
  unfold propagate
  split
  · next operand found => exact .passes (List.mem_of_find?_eq_some found) (List.find?_some found) rfl
  · exact unsupported_answers _ _

end Lowered

namespace Lowering

open Lowered

variable (x y : Value) (op : BinaryOp) (offset : Nat)

/-- What is performed on two numbers is one of the two operations, and nothing is noted. -/
theorem promoted_isResult (onInts onFloats : BinaryInstr) :
    (promoted onInts onFloats x y).value.IsResult ∧ (promoted onInts onFloats x y).log = [] := by
  have silent (v : Value) : (toFloat v).log = [] := by
    cases v <;> rfl
  unfold promoted
  split
  · exact ⟨onInts.fold_isResult _ _, rfl⟩
  · refine ⟨onFloats.fold_isResult _ _, ?_⟩
    change (toFloat x).log ++ ((toFloat y).log ++ []) = []
    rw [silent, silent]
    rfl

/-- A placeholder of the operation itself, such as one for a division that would trap, is noted anew. -/
theorem arithmetic_answers (onInts onFloats : BinaryInstr) :
    (arithmetic op onInts onFloats offset x y).Answers [x, y] := by
  unfold arithmetic
  split
  · obtain ⟨result, silent⟩ := promoted_isResult x y onInts onFloats
    cases found : (promoted onInts onFloats x y).value with
    | unsupported construct =>
      rw [bind_congr_value (g := fun _ => unsupported construct offset) (by rw [found])]
      have noted : (promoted onInts onFloats x y).log ++ [.unsupported construct offset] =
          [LogEntry.unsupported construct offset] := by
        rw [silent]
        rfl
      exact .notes rfl noted
    | void | controlFlow _ | function _ =>
      rw [found] at result
      rcases result with constant | unknown
      · cases constant
      · cases unknown
    | _ =>
      rw [bind_congr_value (g := pure) (by rw [found])]
      refine .gives ?_ ?_
      · rw [bind_pure, found]
        rfl
      · rw [bind_pure, silent]
  · exact propagate_answers _ _ _

/-- The conversion to 32 bits is for every number, and gives an integer. -/
theorem fold_toInt32 {v : Value} (number : v.isNumeric = true) :
    ∃ i : Int64, (UnaryInstr.toInt32.fold v).value = .int i := by
  cases v with
  | int _ | float _ => exact ⟨_, rfl⟩
  | _ => cases number

theorem onWords_answers {instr : BinaryInstr}
    (total : ∀ i j : Int64, (instr.fold (.int i) (.int j)).value.isConst = true) :
    (onWords op instr offset x y).Answers [x, y] := by
  unfold onWords
  split
  · next numbers =>
    obtain ⟨left, right⟩ := Bool.and_eq_true_iff.mp numbers
    obtain ⟨i, first⟩ := fold_toInt32 left
    obtain ⟨j, second⟩ := fold_toInt32 right
    refine .gives ?_ rfl
    change (instr.fold (UnaryInstr.toInt32.fold x).value (UnaryInstr.toInt32.fold y).value).value.isConst = true
    rw [first, second]
    exact total i j
  · exact propagate_answers _ _ _

variable {x y} in
theorem compare_answers (pred : Pred) (numbers : (x.isNumeric && y.isNumeric) = true) {operands : List Value} :
    (compare pred x y).Answers operands := by
  cases x with
  | int _ | float _ =>
    cases y with
    | int _ | float _ => exact .gives rfl rfl
    | _ => cases numbers
  | _ => cases numbers

theorem order_answers (pred : Pred) : (order op pred offset x y).Answers [x, y] := by
  unfold order
  split
  · next numbers => exact compare_answers pred numbers
  · exact propagate_answers _ _ _

theorem equality_answers (pred : Pred) : (equality op pred offset x y).Answers [x, y] := by
  unfold equality
  split
  · split
    · next numbers => exact compare_answers pred numbers
    · split
      · exact .gives rfl rfl
      · split
        · exact .gives rfl rfl
        · split
          · exact .gives rfl rfl
          · exact unsupported_answers _ _
  · exact propagate_answers _ _ _

theorem isConst_of_truthy? {v : Value} {truth : Bool} (known : v.truthy? = some truth) : v.isConst = true := by
  cases v with
  | void | unsupported _ | controlFlow _ | function _ => cases known
  | _ => rfl

theorem logical_answers : (logical op offset x y).Answers [x, y] := by
  unfold logical
  split
  · next truth known =>
    split
    · next right =>
      refine .gives ?_ rfl
      change (if truth == decide (op = .lor) then x else y).isConst = true
      split
      · exact isConst_of_truthy? known
      · exact right
    · exact propagate_answers _ _ _
  · exact propagate_answers _ _ _

theorem binaryOp_answers : (binaryOp op offset x y).Answers [x, y] := by
  cases op with
  | add | sub | mul | div | mod => exact arithmetic_answers _ _ _ _ _ _
  | shl | sar | shr | bitAnd | bitOr | bitXor => exact onWords_answers _ _ _ _ fun _ _ => rfl
  | lt | gt | le | ge => exact order_answers _ _ _ _ _
  | eq | ne | strictEq | strictNe => exact equality_answers _ _ _ _ _
  | land | lor => exact logical_answers _ _ _ _
  | instanceOf | isIn => exact unsupported_answers _ _

theorem unaryResult?_answers {op : UnaryOp} {v : Value} {z : Lowered Value} (found : unaryResult? op v = some z) :
    z.Answers [v] := by
  cases op with
  | not | typeof =>
    obtain ⟨_, _, rfl⟩ := Option.map_eq_some_iff.mp found
    exact .gives rfl rfl
  | _ =>
    cases v with
    | int _ | float _ => cases found <;> exact .gives rfl rfl
    | _ => cases found

theorem unaryOp_answers (op : UnaryOp) (v : Value) : (unaryOp op offset v).Answers [v] := by
  unfold unaryOp
  cases found : unaryResult? op v with
  | some z => exact unaryResult?_answers found
  | none => exact propagate_answers _ _ _

end Lowering

/-! Results of expressions -/

namespace Lowering

open Lowered

theorem unaryOps_isResult (ops : List UnaryOp) (offset : Nat) {v : Value} (result : v.IsResult) :
    (unaryOps ops offset v).value.IsResult := by
  cases ops with
  | nil => exact result
  | cons op rest => exact (unaryOp_answers offset op (unaryOps rest offset v).value).isResult

theorem conditional_isResult (offset : Nat) (test : Value) {yes no : Value} (resultYes : yes.IsResult)
    (resultNo : no.IsResult) : (conditional offset test yes no).value.IsResult := by
  unfold conditional
  split
  · next truth _ =>
    cases truth with
    | true => exact resultYes
    | false => exact resultNo
  · exact (propagate_answers _ _ _).isResult

end Lowering

/-- The kinds of nodes that are expressions, and no parts of one that have no value by themselves. -/
def Kind.isEvaluated : Kind → Bool
  | sequence | assign | cond | tier _ | unary | update | lhs | member | instantiation | primary => true
  | _ => false

/-- Expressions, the operations of a tier, and lists of these. -/
def Shape.hasResult : Shape → Bool
  | node (.operation _) | list (.operation _) => true
  | node kind | list kind => kind.isEvaluated
  | optional _ => false

theorem Tier.operand_isEvaluated (tier : Tier) : tier.operand.isEvaluated = true := by
  cases tier <;> rfl

theorem Shape.hasResult_list (kind : Kind) : (list kind).hasResult = (node kind).hasResult := by
  cases kind <;> rfl

theorem Kind.node_hasResult {kind : Kind} (expression : kind.isEvaluated = true) :
    (Shape.node kind).hasResult = true := by
  cases kind with
  | operation _ => rfl
  | _ => exact expression

namespace Tree

open Lowered Lowering

theorem isNil_elim {kind : Kind} {node : Node kind} {p : Prop} (none : node.isNil = true) : p := by
  cases node <;> cases none

/-- An expression gives a constant or an unsupported value, and so does a list of expressions with something in it. -/
theorem lower_isResult {shape : Shape} (tree : Tree shape) (proper : tree.All Proper) {before : Value}
    (expression : shape.hasResult = true) (known : tree.isNil = true → before.IsResult) :
    (tree.lower before).value.IsResult := by
  induction tree generalizing before with
  | nil => exact known rfl
  | cons head tail ihHead ihTail =>
    have inside : (Shape.node _).hasResult = true := Shape.hasResult_list _ ▸ expression
    exact ihTail proper.2 expression fun _ => ihHead proper.1 inside isNil_elim
  | sequence _ _ ih => exact ih proper.2 rfl fun none => (Bool.false_ne_true (proper.1.symm.trans none)).elim
  | assign _ targets _ _ ihValue =>
    cases targets with
    | nil => exact ihValue proper.2.2 rfl isNil_elim
    | cons _ _ => exact .inr rfl
  | plain _ _ ih => exact ih proper.2 rfl isNil_elim
  | paren _ _ ih => exact ih proper.2 rfl isNil_elim
  | ternary span _ _ _ _ ihYes ihNo =>
    exact conditional_isResult span.start _ (ihYes proper.2.2.1 rfl isNil_elim) (ihNo proper.2.2.2 rfl isNil_elim)
  | level _ tier _ _ ihHead ihOperations =>
    exact ihOperations proper.2.2 rfl fun _ =>
      ihHead proper.2.1 (Kind.node_hasResult tier.operand_isEvaluated) isNil_elim
  | operation _ op _ operand _ => exact (binaryOp_answers before _ op.1 operand.span.start).isResult
  | unary _ ops _ ih => exact unaryOps_isResult ops _ (ih proper.2 rfl isNil_elim)
  | update _ _ op ih =>
    cases op with
    | none => exact ih proper.2 rfl isNil_elim
    | some _ => exact (propagate_answers _ _ _).isResult
  | newExpr _ count _ ih =>
    cases count with
    | zero => exact ih proper.2 rfl isNil_elim
    | succ _ => exact .inr rfl
  | member _ _ modifiers ihObject _ =>
    cases modifiers with
    | nil => exact ihObject proper.2.1 rfl isNil_elim
    | cons _ _ => exact .inr rfl
  | ofInstantiation _ ih => exact ih proper rfl isNil_elim
  | instantiated _ ih => exact ih proper rfl isNil_elim
  | instantiation _ _ _ => exact .inr rfl
  | call _ _ _ _ => exact .inr rfl
  | thisExpr _ => exact .inr rfl
  | ident _ _ => exact .inr rfl
  | arrayLit _ _ _ => exact .inr rfl
  | funcExpr _ _ _ _ _ => exact .inr rfl
  | nullLit _ => exact .inl rfl
  | boolLit _ _ => exact .inl rfl
  | stringLit _ _ => exact .inl rfl
  | numberLit _ value =>
    obtain ⟨_, _ | _⟩ := value <;> exact .inl rfl
  | _ => cases expression

end Tree

/-! The log of a lowering -/

namespace Lowered

variable {α : Type} {earlier : List LogEntry}

/-- Behind what was noted earlier, the log tells where the value comes from. -/
def Explains (earlier : List LogEntry) (x : Lowered Value) : Prop := x.value.Logged (earlier ++ x.log)

/-- What is done first is earlier than what is done next. -/
theorem Explains.bind {x : Lowered α} {f : α → Lowered Value} (next : (f x.value).Explains (earlier ++ x.log)) :
    (x >>= f).Explains earlier := by
  unfold Explains at next
  rwa [List.append_assoc] at next

theorem explains_pure {v : Value} (known : v.Logged earlier) : (pure v : Lowered Value).Explains earlier :=
  known.append []

theorem explains_unsupported (construct : Bytes) (offset : Nat) : (unsupported construct offset).Explains earlier :=
  Value.logged_unsupported (List.mem_append_right _ List.mem_cons_self)

theorem explains_controlFlow (construct : String) (offset : Nat) : (controlFlow construct offset).Explains earlier :=
  ⟨_, List.mem_append_right _ List.mem_cons_self, rfl, fun _ => List.mem_cons_self⟩

theorem Answers.explains {operand : Value} {z : Lowered Value} (answers : z.Answers [operand])
    (known : operand.Logged earlier) : z.Explains earlier :=
  answers.logged (List.forall_mem_singleton.mpr known)

end Lowered

namespace Lowering

open Lowered

variable {earlier : List LogEntry}

theorem binaryOp_explains (op : BinaryOp) (offset : Nat) {x y : Value} (left : x.Logged earlier)
    (right : y.Logged earlier) : (binaryOp op offset x y).Explains earlier :=
  (binaryOp_answers x y op offset).logged (List.forall_mem_cons.mpr ⟨left, List.forall_mem_singleton.mpr right⟩)

theorem unaryOps_explains (ops : List UnaryOp) (offset : Nat) {v : Value} (known : v.Logged earlier) :
    (unaryOps ops offset v).Explains earlier := by
  induction ops with
  | nil => exact explains_pure known
  | cons op rest ih => exact .bind ((unaryOp_answers offset op _).explains ih)

theorem conditional_explains (offset : Nat) {test yes no : Value} (knownTest : test.Logged earlier)
    (knownYes : yes.Logged earlier) (knownNo : no.Logged earlier) :
    (conditional offset test yes no).Explains earlier := by
  unfold conditional
  split
  · next truth _ =>
    cases truth with
    | true => exact explains_pure knownYes
    | false => exact explains_pure knownNo
  · exact (propagate_answers _ _ _).explains knownTest

end Lowering

namespace Tree

open Lowered Lowering

/-- The log of a tree tells where its value comes from, if the value of what stands before it is known. -/
theorem lower_explains {shape : Shape} (tree : Tree shape) {before : Value} {earlier : List LogEntry}
    (known : before.Logged earlier) : (tree.lower before).Explains earlier := by
  induction tree generalizing before earlier with
  | nil => exact explains_pure known
  | absent => exact explains_pure known
  | target _ _ _ => exact explains_pure known
  | arguments _ _ _ => exact explains_pure known
  | ofArguments _ _ => exact explains_pure known
  | index _ _ _ => exact explains_pure known
  | property _ _ => exact explains_pure known
  | cons _ _ ihHead ihTail => exact .bind (ihTail (ihHead known))
  | present _ ih => exact ih known
  | ofStatement _ ih => exact ih known
  | ofBlock _ ih => exact ih known
  | declaration _ _ _ ih => exact ih known
  | ofInstantiation _ ih => exact ih known
  | instantiated _ ih => exact ih known
  | program _ _ ih => exact ih trivial
  | block _ _ ih => exact ih trivial
  | varStmt _ _ ih => exact ih trivial
  | exprStmt _ _ ih => exact ih trivial
  | labeled _ _ _ ih => exact ih trivial
  | caseClause _ _ _ _ ihBody => exact .bind (ihBody trivial)
  | defaultClause _ _ ih => exact ih trivial
  | catchClause _ _ _ ih => exact ih trivial
  | sequence _ _ ih => exact ih trivial
  | plain _ _ ih => exact ih trivial
  | paren _ _ ih => exact ih trivial
  | funcDecl _ _ _ _ _ => exact ⟨_, List.mem_append_right _ List.mem_cons_self, rfl, fun _ => List.mem_cons_self⟩
  | ifStmt _ _ _ _ _ _ _ => exact .bind (.bind (.bind (explains_controlFlow _ _)))
  | doWhile _ _ _ _ _ => exact .bind (.bind (explains_controlFlow _ _))
  | whileStmt _ _ _ _ _ => exact .bind (.bind (explains_controlFlow _ _))
  | forStmt _ _ _ _ _ _ _ _ _ => exact .bind (.bind (.bind (.bind (explains_controlFlow _ _))))
  | forVar _ _ _ _ _ _ _ _ _ => exact .bind (.bind (.bind (.bind (explains_controlFlow _ _))))
  | forIn _ _ _ _ _ _ _ => exact .bind (.bind (explains_controlFlow _ _))
  | forInVar _ _ _ _ _ _ _ => exact .bind (.bind (.bind (explains_controlFlow _ _)))
  | continueStmt _ _ => exact explains_controlFlow _ _
  | breakStmt _ _ => exact explains_controlFlow _ _
  | returnStmt _ _ _ => exact .bind (explains_controlFlow _ _)
  | withStmt _ _ _ _ _ => exact .bind (.bind (explains_controlFlow _ _))
  | switchStmt _ _ _ _ _ _ _ _ _ => exact .bind (.bind (.bind (.bind (explains_controlFlow _ _))))
  | throwStmt _ _ _ => exact .bind (explains_controlFlow _ _)
  | tryStmt _ _ _ _ _ _ _ => exact .bind (.bind (.bind (explains_controlFlow _ _)))
  | assign _ targets _ _ ihValue =>
    cases targets with
    | nil => exact ihValue trivial
    | cons _ _ => exact .bind (explains_unsupported _ _)
  | ternary span test yes _ ihTest ihYes ihNo =>
    have ofTest : (test.lower .void).Explains earlier := ihTest trivial
    have ofYes : (yes.lower .void).Explains (earlier ++ (test.lower .void).log) := ihYes trivial
    -- What the branches note stands between the test and the decision.
    exact .bind (.bind (.bind (conditional_explains span.start (Value.Logged.append (Value.Logged.append ofTest _) _)
      (Value.Logged.append ofYes _) (ihNo trivial))))
  | level _ _ _ _ ihHead ihOperations => exact .bind (ihOperations (ihHead trivial))
  | operation _ op _ operand ih => exact .bind (binaryOp_explains op.1 operand.span.start (known.append _) (ih trivial))
  | unary span ops _ ih => exact .bind (unaryOps_explains ops span.start (ih trivial))
  | update _ _ op ih =>
    cases op with
    | none => exact .bind (explains_pure (ih trivial))
    | some _ => exact .bind ((propagate_answers _ _ _).explains (ih trivial))
  | newExpr _ count _ ih =>
    cases count with
    | zero => exact ih trivial
    | succ _ => exact explains_unsupported _ _
  | member _ _ modifiers ihObject _ =>
    cases modifiers with
    | nil => exact ihObject trivial
    | cons _ _ => exact explains_unsupported _ _
  | instantiation _ _ _ _ _ => exact explains_unsupported _ _
  | call _ _ _ _ _ _ _ => exact explains_unsupported _ _
  | thisExpr _ => exact explains_unsupported _ _
  | ident _ _ => exact explains_unsupported _ _
  | arrayLit _ _ _ => exact explains_unsupported _ _
  | funcExpr _ _ _ _ _ => exact explains_unsupported _ _
  | numberLit _ value =>
    obtain ⟨_, _ | _⟩ := value <;> exact trivial
  | _ => exact trivial

end Tree

namespace Program

/-- The programs that the parser gives: those that it reads whole, and the longest beginnings of sources. -/
inductive Produced : Program → Prop where
  | whole {file source : Bytes} {program : Program} (accepted : parse file source = .ok program) : Produced program
  | longest (source : Bytes) : Produced (parseLongest source).1

theorem Produced.proper {program : Program} (produced : program.Produced) : program.tree.All Tree.Proper := by
  cases produced with
  | whole accepted => exact (parse_covers accepted).1
  | longest source => exact ⟨trivial, (Reading.ofLexemes_reads source).1⟩

/-- In a program that the parser gives every expression gives a constant or an unsupported value, and whatever
placeholder a part of it or the whole gives was noted in the log of that lowering. -/
theorem placeholders_logged {program : Program} (produced : program.Produced) :
    (∀ any ∈ program.tree.nodes, any.kind.isEvaluated = true → (any.node.lower .void).value.IsResult ∧
      (any.node.lower .void).value.kind ∉ [.void, .controlFlow, .function]) ∧
    (∀ any ∈ program.tree.nodes, (any.node.lower .void).value.Logged (any.node.lower .void).log) ∧
    ∀ recorded : Nat, (program.lowerAfter recorded).value.Logged (program.lowerAfter recorded).log := by
  have proper := Tree.all_iff_nodes.mp (Tree.all_all produced.proper)
  have explains {shape : Shape} (tree : Tree shape) : (tree.lower .void).Explains [] := tree.lower_explains trivial
  refine ⟨fun any member expression => ?_, fun any _ => explains any.node, fun recorded => ?_⟩
  · have result : (any.node.lower .void).value.IsResult :=
      any.node.lower_isResult (proper any member) (Kind.node_hasResult expression) Tree.isNil_elim
    exact ⟨result, result.kind_notMem⟩
  · exact Value.Logged.append (explains program.tree) _

/-- The identifier passes through two operators. -/
theorem placeholders_logged_identifier :
    ∃ program, parse [] (utf8 "function f() { return; } x ? 1 : 2 / 0; (-x) * 'a';") = .ok program ∧
      (∀ any ∈ program.tree.nodes, any.kind.isEvaluated = true → (any.node.lower .void).value.IsResult ∧
        (any.node.lower .void).value.kind ∉ [.void, .controlFlow, .function]) ∧
      (∀ any ∈ program.tree.nodes, (any.node.lower .void).value.Logged (any.node.lower .void).log) ∧
      ∀ recorded : Nat, (program.lowerAfter recorded).value.Logged (program.lowerAfter recorded).log := by
  have complete : (readPart (utf8 "function f() { return; } x ? 1 : 2 / 0; (-x) * 'a';")).complete = true := by
    decide +kernel
  have accepted := @parse_of_complete [] _ complete
  exact ⟨_, accepted, placeholders_logged (.whole accepted)⟩

end Program

end EcmaFold
