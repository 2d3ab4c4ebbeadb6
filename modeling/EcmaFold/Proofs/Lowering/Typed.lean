import EcmaFold.Compile
import EcmaFold.Proofs.Lowering.Basic
import EcmaFold.Proofs.Lowering.Calls
import EcmaFold.Proofs.Lowering.Unknown

/-!
Lowering is well typed: it asks for an operation only with operands of the kinds that the operation is for. So nothing
is refused but divisions without a result, and every instruction that was recorded can be performed again.
-/

namespace EcmaFold

/-! What the operations are for -/

/-- The kinds of operands that an operation is for. -/
def UnaryInstr.kinds : UnaryInstr → List Value.Kind
  | sitofp | neg => [.int]
  | toInt32 => [.int, .float]
  | fneg => [.float]
  | not => [.bool]

/-- The kinds of operands that an operation is for; both are of the same kind. -/
def BinaryInstr.kinds : BinaryInstr → List Value.Kind
  | add | sub | mul | sdiv | srem | shl | ashr | lshr | and | or | xor => [.int]
  | fadd | fsub | fmul | fdiv | frem | fcmp _ => [.float]
  | icmp _ => [.int, .bool]

/-- The construct is an answer to operands of the wrong kinds. -/
def IsRefusal (construct : Bytes) : Prop :=
  (∃ instr : UnaryInstr, instr.refusal = .refuse construct) ∨ ∃ instr : BinaryInstr, instr.refusal = .refuse construct

/-- Whether a construct ends in `operand` or `operands`. -/
def endsInOperand (construct : Bytes) : Bool :=
  (utf8 "operand").isSuffixOf construct || (utf8 "operands").isSuffixOf construct

theorem endsInOperand_of_isRefusal {construct : Bytes} (refusal : IsRefusal construct) :
    endsInOperand construct = true := by
  rcases refusal with ⟨instr, same⟩ | ⟨instr, same⟩ <;> cases instr <;> cases same <;> rfl

theorem not_isRefusal {construct : Bytes} (other : endsInOperand construct = false) : ¬ IsRefusal construct := by
  intro refusal
  rw [endsInOperand_of_isRefusal refusal] at other
  cases other

/-- The construct of an unsupported value. -/
def Value.construct? : Value → Option Bytes
  | unsupported construct => some construct
  | _ => none

/-- The value does not say that operands were of the wrong kinds. -/
def Value.Plain (v : Value) : Prop := ∀ construct ∈ v.construct?, ¬ IsRefusal construct

theorem Value.plain_of_construct? {v : Value} (nothing : v.construct? = none) : v.Plain := by
  intro construct found
  rw [nothing] at found
  cases found

theorem Value.plain_of_isConst {v : Value} (constant : v.isConst = true) : v.Plain := by
  cases v with
  | unsupported _ => cases constant
  | _ => exact plain_of_construct? rfl

theorem Value.plain_unsupported {construct : Bytes} (other : ¬ IsRefusal construct) :
    (unsupported construct).Plain := by
  rintro _ ⟨⟩
  exact other

/-- The constructs that a log entry carries. -/
def LogEntry.constructs : LogEntry → List Bytes
  | unsupported construct _ | controlFlow construct _ => [construct]
  | function _ _ => []
  | program _ _ v _ => v.construct?.toList
  | instruction _ instr => (instr.result :: instr.args).filterMap Value.construct?

def LogEntry.Plain (entry : LogEntry) : Prop := ∀ construct ∈ entry.constructs, ¬ IsRefusal construct

/-! Calls -/

/-- The operation that an instruction with one operand records. -/
def Opcode.unary? : Opcode → Option UnaryInstr
  | sitofp => some .sitofp
  | fptoi32 | trunc32 => some .toInt32
  | neg => some .neg
  | fneg => some .fneg
  | not => some .not
  | _ => none

/-- The operation that an instruction with two operands records. -/
def Opcode.binary? : Opcode → Option Pred → Option BinaryInstr
  | add, none => some .add
  | sub, none => some .sub
  | mul, none => some .mul
  | sdiv, none => some .sdiv
  | srem, none => some .srem
  | fadd, none => some .fadd
  | fsub, none => some .fsub
  | fmul, none => some .fmul
  | fdiv, none => some .fdiv
  | frem, none => some .frem
  | shl, none => some .shl
  | ashr, none => some .ashr
  | lshr, none => some .lshr
  | and, none => some .and
  | or, none => some .or
  | xor, none => some .xor
  | icmp, some pred => some (.icmp pred)
  | fcmp, some pred => some (.fcmp pred)
  | _, _ => none

/-- The call that an instruction records. -/
def Instr.call? (instr : Instr) : Option Call :=
  match instr.args with
  | [x] => instr.op.unary?.map (.unary · x)
  | [x, y] => (instr.op.binary? instr.pred).map (.binary · x y)
  | _ => none

namespace Call

/-- The operands are of one kind that the operation is for. -/
def Typed : Call → Prop
  | unary instr x => x.kind ∈ instr.kinds
  | binary instr x y => x.kind ∈ instr.kinds ∧ y.kind = x.kind

/-- A division of integers without a result: by zero, or of the least integer by minus one. -/
def Traps : Call → Prop
  | binary .sdiv (.int a) (.int b) | binary .srem (.int a) (.int b) => b = 0 ∨ a = Int64.minValue ∧ b = -1
  | _ => False

/-- The call is performed and recorded as an instruction, which says what to call again. -/
structure Records (call : Call) (instr : Instr) : Prop where
  fold : call.fold = ⟨instr.result, [instr]⟩
  again : instr.call? = some call
  args : ∀ arg ∈ instr.args, arg.isConst = true
  result : instr.result.isConst = true

/-- What becomes of a call: a division without a result is not performed and leaves no instruction, and every other
operation is recorded. -/
inductive Answered (call : Call) : Prop where
  | stops {text : Bytes} (traps : call.Traps) (fold : call.fold = .refuse text) (other : ¬ IsRefusal text)
  | records {instr : Instr} (sound : ¬ call.Traps) (records : call.Records instr)

end Call

namespace Value

theorem exists_int {v : Value} (isInt : v.kind = .int) : ∃ i, v = int i := by
  cases v with
  | int i => exact ⟨i, rfl⟩
  | _ => cases isInt

theorem exists_float {v : Value} (isFloat : v.kind = .float) : ∃ f, v = float f := by
  cases v with
  | float f => exact ⟨f, rfl⟩
  | _ => cases isFloat

theorem exists_bool {v : Value} (isBool : v.kind = .bool) : ∃ b, v = bool b := by
  cases v with
  | bool b => exact ⟨b, rfl⟩
  | _ => cases isBool

end Value

namespace Call

open Value

/-- What is emitted is recorded. -/
theorem answered_emit {call : Call} {op : Opcode} {args : List Value} {result : Value} (sound : ¬ call.Traps)
    (fold : call.fold = .emit op args result) (again : Instr.call? ⟨op, none, args, result⟩ = some call)
    (constants : args.all Value.isConst = true) (constant : result.isConst = true) : call.Answered :=
  .records sound ⟨fold, again, List.all_eq_true.mp constants, constant⟩

theorem answered_compare {call : Call} {op : Opcode} {pred : Pred} {x y : Value} {holds : Bool} (sound : ¬ call.Traps)
    (fold : call.fold = .compare op pred x y holds)
    (again : Instr.call? ⟨op, some pred, [x, y], .bool holds⟩ = some call)
    (constants : [x, y].all Value.isConst = true) : call.Answered :=
  .records sound ⟨fold, again, List.all_eq_true.mp constants, rfl⟩

/-- A division of integers. -/
theorem answered_division {instr : BinaryInstr} (divides : instr = .sdiv ∨ instr = .srem) (a b : Int64) :
    (binary instr (.int a) (.int b)).Answered := by
  have traps : (binary instr (.int a) (.int b)).Traps ↔ b = 0 ∨ a = Int64.minValue ∧ b = -1 := by
    rcases divides with rfl | rfl <;> exact Iff.rfl
  cases trap : BinaryInstr.divisionTrap? a b with
  | none =>
    have sound : ¬ (binary instr (.int a) (.int b)).Traps := by
      rw [traps]
      unfold BinaryInstr.divisionTrap? at trap
      grind
    refine @answered_emit _ instr.opcode [.int a, .int b] (.int ((instr.onInts a b).getD 0)) sound ?_ ?_ rfl rfl
    · rcases divides with rfl | rfl <;> simp only [fold, BinaryInstr.fold, trap] <;> rfl
    · rcases divides with rfl | rfl <;> rfl
  | some text =>
    have refused : (binary instr (.int a) (.int b)).fold = .refuse text := by
      rcases divides with rfl | rfl <;> simp only [fold, BinaryInstr.fold, trap]
    unfold BinaryInstr.divisionTrap? at trap
    split at trap
    · rename_i zero
      cases trap
      exact .stops (traps.mpr (.inl zero)) refused (not_isRefusal (by decide))
    split at trap
    · rename_i overflow
      cases trap
      exact .stops (traps.mpr (.inr overflow)) refused (not_isRefusal (by decide))
    · cases trap

theorem answered_ints {instr : BinaryInstr} (takes : Value.Kind.int ∈ instr.kinds) (a b : Int64) :
    (binary instr (.int a) (.int b)).Answered := by
  cases instr with
  | sdiv => exact answered_division (.inl rfl) a b
  | srem => exact answered_division (.inr rfl) a b
  | icmp pred => exact answered_compare id rfl rfl rfl
  | fadd | fsub | fmul | fdiv | frem | fcmp _ => simp [BinaryInstr.kinds] at takes
  | _ => exact answered_emit id rfl rfl rfl rfl

theorem answered_floats {instr : BinaryInstr} (takes : Value.Kind.float ∈ instr.kinds) (a b : Float) :
    (binary instr (.float a) (.float b)).Answered := by
  cases instr with
  | fadd | fsub | fmul | fdiv | frem => exact answered_emit id rfl rfl rfl rfl
  | fcmp pred => exact answered_compare id rfl rfl rfl
  | _ => simp [BinaryInstr.kinds] at takes

theorem answered_bools {instr : BinaryInstr} (takes : Value.Kind.bool ∈ instr.kinds) (a b : Bool) :
    (binary instr (.bool a) (.bool b)).Answered := by
  cases instr with
  | icmp pred => exact answered_compare id rfl rfl rfl
  | _ => simp [BinaryInstr.kinds] at takes

/-- No operation is for anything but numbers and booleans. -/
theorem kind_cases {instr : BinaryInstr} {kind : Value.Kind} (takes : kind ∈ instr.kinds) :
    kind = .int ∨ kind = .float ∨ kind = .bool := by
  cases instr with
  | icmp _ => exact (List.mem_cons.mp takes).imp_right fun other => .inr (List.mem_singleton.mp other)
  | fadd | fsub | fmul | fdiv | frem | fcmp _ => exact .inr (.inl (List.mem_singleton.mp takes))
  | _ => exact .inl (List.mem_singleton.mp takes)

/-- A call with the right operands is recorded, unless it is a division without a result. -/
theorem Typed.answered {call : Call} (typed : call.Typed) : call.Answered := by
  cases call with
  | unary instr x =>
    cases instr with
    | sitofp =>
      obtain ⟨i, rfl⟩ := exists_int (List.mem_singleton.mp typed)
      exact answered_emit id rfl rfl rfl rfl
    | toInt32 =>
      rcases List.mem_cons.mp typed with isInt | other
      · obtain ⟨i, rfl⟩ := exists_int isInt
        exact answered_emit id rfl rfl rfl rfl
      · obtain ⟨f, rfl⟩ := exists_float (List.mem_singleton.mp other)
        exact answered_emit id rfl rfl rfl rfl
    | neg =>
      obtain ⟨i, rfl⟩ := exists_int (List.mem_singleton.mp typed)
      exact answered_emit id rfl rfl rfl rfl
    | fneg =>
      obtain ⟨f, rfl⟩ := exists_float (List.mem_singleton.mp typed)
      exact answered_emit id rfl rfl rfl rfl
    | not =>
      obtain ⟨b, rfl⟩ := exists_bool (List.mem_singleton.mp typed)
      exact answered_emit id rfl rfl rfl rfl
  | binary instr x y =>
    obtain ⟨takes, same⟩ := typed
    rcases kind_cases takes with kind | kind | kind
    · obtain ⟨⟨a, rfl⟩, b, rfl⟩ := And.intro (exists_int kind) (exists_int (same.trans kind))
      exact answered_ints takes a b
    · obtain ⟨⟨a, rfl⟩, b, rfl⟩ := And.intro (exists_float kind) (exists_float (same.trans kind))
      exact answered_floats takes a b
    · obtain ⟨⟨a, rfl⟩, b, rfl⟩ := And.intro (exists_bool kind) (exists_bool (same.trans kind))
      exact answered_bools takes a b

theorem Answered.plain {call : Call} (answered : call.Answered) : call.fold.value.Plain := by
  cases answered with
  | stops _ fold other =>
    rw [fold]
    exact plain_unsupported other
  | records _ records =>
    rw [records.fold]
    exact plain_of_isConst records.result

end Call

/-! What is asked for by a lowering -/

/-- The calls account for all instructions of a lowering and are all typed, and no answer to operands of the wrong kinds
is left in its value or in its log. -/
structure Lowered.Asks (y : Lowered Value) (calls : List Call) : Prop where
  trace : y.trace = calls.flatMap (·.fold.trace)
  typed : ∀ call ∈ calls, call.Typed
  plain : y.value.Plain
  logged : ∀ entry ∈ y.log, entry.Plain

namespace Lowered

variable {x : Lowered Value} {f : Value → Lowered Value} {calls calls' : List Call}

theorem Asks.pure {v : Value} (plain : v.Plain) : Asks (pure v) [] :=
  ⟨rfl, List.forall_mem_nil _, plain, List.forall_mem_nil _⟩

theorem Asks.bind (first : x.Asks calls) (next : (f x.value).Asks calls') : (x >>= f).Asks (calls ++ calls') where
  trace := by
    rw [List.flatMap_append, ← first.trace, ← next.trace]
    rfl
  typed := List.forall_mem_append.mpr ⟨first.typed, next.typed⟩
  plain := next.plain
  logged := List.forall_mem_append.mpr ⟨first.logged, next.logged⟩

/-- Nothing more is asked for. -/
theorem Asks.last (first : x.Asks calls) (next : (f x.value).Asks []) : (x >>= f).Asks calls := by
  simpa using first.bind next

theorem asks_unsupported {construct : Bytes} (other : ¬ IsRefusal construct) (offset : Nat) :
    (unsupported construct offset).Asks [] :=
  ⟨rfl, List.forall_mem_nil _, Value.plain_unsupported other, List.forall_mem_singleton.mpr fun _ member => by
    rwa [List.mem_singleton.mp member]⟩

theorem asks_controlFlow {construct : String} (other : endsInOperand (utf8 construct) = false) (offset : Nat) :
    (controlFlow construct offset).Asks [] :=
  ⟨rfl, List.forall_mem_nil _, Value.plain_of_construct? rfl, List.forall_mem_singleton.mpr fun _ member => by
    rw [List.mem_singleton.mp member]
    exact not_isRefusal other⟩

theorem asks_propagate {construct : Bytes} (other : endsInOperand construct = false) (offset : Nat)
    {operands : List Value} (plain : ∀ v ∈ operands, v.Plain) : (propagate construct offset operands).Asks [] := by
  unfold propagate
  split
  · rename_i operand found
    exact .pure (plain operand (List.mem_of_find?_eq_some found))
  · exact asks_unsupported (not_isRefusal other) offset

end Lowered

open Lowered

namespace Called

/-- The computation with calls is the one without, and its calls account for it. -/
structure Follows (x : Called Value) (y : Lowered Value) : Prop where
  lowered : x.lowered = y
  asks : y.Asks x.calls

variable {x : Called Value} {y : Lowered Value}

theorem Follows.value (follows : x.Follows y) : y.value = x.value := by
  rw [← follows.lowered]
  rfl

theorem Follows.quiet (asks : y.Asks []) : (quiet y).Follows y where
  lowered := by
    have nothing := asks.trace
    cases y
    cases nothing
    rfl
  asks := asks

theorem Follows.pure {v : Value} (plain : v.Plain) : Follows (pure v) (pure v) := ⟨rfl, .pure plain⟩

theorem Follows.ask (call : Call) (typed : call.Typed) : (ask call).Follows (perform call.fold) where
  lowered := by simp [Called.lowered, Called.ask, perform]
  asks := ⟨by simp [Called.ask, perform], List.forall_mem_singleton.mpr typed, typed.answered.plain,
    List.forall_mem_nil _⟩

theorem Follows.bind {f : Value → Called Value} {g : Value → Lowered Value} (first : x.Follows y)
    (next : (f x.value).Follows (g x.value)) : (x >>= f).Follows (y >>= g) where
  lowered := by
    rw [lowered_bind, first.lowered]
    refine bind_congr_value ?_
    rw [first.value]
    exact next.lowered
  asks := first.asks.bind (by
    rw [first.value]
    exact next.asks)

end Called

/-! Operators -/

namespace Calling

open Called

/-- A conversion asks for the conversion of integers only. -/
theorem promoted_follows {onInts onFloats : BinaryInstr} (ints : Value.Kind.int ∈ onInts.kinds)
    (floats : Value.Kind.float ∈ onFloats.kinds) {x y : Value} (numbers : (x.isNumeric && y.isNumeric) = true) :
    (promoted onInts onFloats x y).Follows (Lowering.promoted onInts onFloats x y) := by
  obtain ⟨left, right⟩ := Bool.and_eq_true_iff.mp numbers
  have converted (i : Int64) : (Called.unary .sitofp (.int i)).Follows (Lowered.unary .sitofp (.int i)) :=
    .ask (.unary .sitofp (.int i)) List.mem_cons_self
  have performed (a b : Float) : (Called.binary onFloats (.float a) (.float b)).Follows
      (Lowered.binary onFloats (.float a) (.float b)) :=
    .ask (.binary onFloats (.float a) (.float b)) ⟨floats, rfl⟩
  have stays (a : Float) : (pure (.float a) : Called Value).Follows (pure (.float a)) :=
    .pure (Value.plain_of_construct? rfl)
  cases x with
  | int i =>
    cases y with
    | int j => exact .ask (.binary onInts (.int i) (.int j)) ⟨ints, rfl⟩
    | float b => exact (converted i).bind ((stays b).bind (performed _ b))
    | _ => cases right
  | float a =>
    cases y with
    | int j => exact (stays a).bind ((converted j).bind (performed a _))
    | float b => exact (stays a).bind ((stays b).bind (performed a b))
    | _ => cases right
  | _ => cases left

variable {x y : Value} (left : x.Plain) (right : y.Plain)
include left right

theorem propagate_follows {construct : Bytes} (other : endsInOperand construct = false) (offset : Nat) :
    (Called.propagate construct offset [x, y]).Follows (Lowered.propagate construct offset [x, y]) :=
  .quiet (asks_propagate other offset (List.forall_mem_cons.mpr ⟨left, List.forall_mem_singleton.mpr right⟩))

theorem arithmetic_follows {op : BinaryOp} (other : endsInOperand op.spelling = false) {onInts onFloats : BinaryInstr}
    (ints : Value.Kind.int ∈ onInts.kinds) (floats : Value.Kind.float ∈ onFloats.kinds) (offset : Nat) :
    (arithmetic op onInts onFloats offset x y).Follows (Lowering.arithmetic op onInts onFloats offset x y) := by
  unfold arithmetic Lowering.arithmetic
  by_cases numbers : (x.isNumeric && y.isNumeric) = true
  · rw [if_pos numbers, if_pos numbers]
    have follows := promoted_follows ints floats numbers
    refine follows.bind ?_
    have plain := follows.asks.plain
    rw [follows.value] at plain
    cases result : (promoted onInts onFloats x y).value with
    | unsupported construct =>
      rw [result] at plain
      exact .quiet (asks_unsupported (plain construct rfl) offset)
    | _ => exact .pure (by rwa [result] at plain)
  · rw [if_neg numbers, if_neg numbers]
    exact propagate_follows left right other offset

theorem onWords_follows {op : BinaryOp} (other : endsInOperand op.spelling = false) {instr : BinaryInstr}
    (ints : Value.Kind.int ∈ instr.kinds) (offset : Nat) :
    (onWords op instr offset x y).Follows (Lowering.onWords op instr offset x y) := by
  have converted {v : Value} (number : v.isNumeric = true) :
      (Called.unary .toInt32 v).Follows (Lowered.unary .toInt32 v) ∧
        ∃ i, (Called.unary .toInt32 v).value = .int i := by
    cases v with
    | int i => exact ⟨.ask (.unary .toInt32 (.int i)) List.mem_cons_self, _, rfl⟩
    | float f =>
      exact ⟨.ask (.unary .toInt32 (.float f)) (List.mem_cons_of_mem _ List.mem_cons_self), _, rfl⟩
    | _ => cases number
  unfold onWords Lowering.onWords
  by_cases numbers : (x.isNumeric && y.isNumeric) = true
  · rw [if_pos numbers, if_pos numbers]
    obtain ⟨isNumber, isNumber'⟩ := Bool.and_eq_true_iff.mp numbers
    obtain ⟨first, i, isInt⟩ := converted isNumber
    obtain ⟨second, j, isInt'⟩ := converted isNumber'
    refine first.bind (second.bind ?_)
    rw [isInt, isInt']
    exact .ask (.binary instr (.int i) (.int j)) ⟨ints, rfl⟩
  · rw [if_neg numbers, if_neg numbers]
    exact propagate_follows left right other offset

omit left right in
theorem compare_follows (pred : Pred) (numbers : (x.isNumeric && y.isNumeric) = true) :
    (compare pred x y).Follows (Lowering.compare pred x y) :=
  promoted_follows List.mem_cons_self List.mem_cons_self numbers

theorem order_follows {op : BinaryOp} (other : endsInOperand op.spelling = false) (pred : Pred) (offset : Nat) :
    (order op pred offset x y).Follows (Lowering.order op pred offset x y) := by
  unfold order Lowering.order
  by_cases numbers : (x.isNumeric && y.isNumeric) = true
  · rw [if_pos numbers, if_pos numbers]
    exact compare_follows pred numbers
  · rw [if_neg numbers, if_neg numbers]
    exact propagate_follows left right other offset

theorem equality_follows {op : BinaryOp} (other : endsInOperand op.spelling = false)
    (coercing : endsInOperand (utf8 "coercing " ++ op.spelling) = false) (pred : Pred) (offset : Nat) :
    (equality op pred offset x y).Follows (Lowering.equality op pred offset x y) := by
  unfold equality Lowering.equality
  by_cases constants : (x.isConst && y.isConst) = true
  · rw [if_pos constants, if_pos constants]
    by_cases numbers : (x.isNumeric && y.isNumeric) = true
    · rw [if_pos numbers, if_pos numbers]
      exact compare_follows pred numbers
    rw [if_neg numbers, if_neg numbers]
    by_cases bools : ∃ a b, x = .bool a ∧ y = .bool b
    · obtain ⟨a, b, rfl, rfl⟩ := bools
      exact .ask (.binary (.icmp pred) (.bool a) (.bool b)) ⟨List.mem_cons_of_mem _ List.mem_cons_self, rfl⟩
    have compared : ∀ b : Bool, (pure (.bool b) : Called Value).Follows (pure (.bool b)) :=
      fun b => .pure (Value.plain_of_construct? rfl)
    split
    · exact (bools ⟨_, _, rfl, rfl⟩).elim
    by_cases kinds : x.kind = y.kind
    · simp only [if_pos kinds]
      exact compared _
    by_cases strict : Lowering.isStrict op = true
    · simp only [if_neg kinds, if_pos strict]
      exact compared _
    · simp only [if_neg kinds, if_neg strict]
      exact .quiet (asks_unsupported (not_isRefusal coercing) offset)
  · rw [if_neg constants, if_neg constants]
    exact propagate_follows left right other offset

theorem logical_asks {op : BinaryOp} (other : endsInOperand op.spelling = false) (offset : Nat) :
    (Lowering.logical op offset x y).Asks [] := by
  have propagated := (propagate_follows left right other offset).asks
  unfold Lowering.logical
  split
  · split
    · refine .pure ?_
      split
      · exact left
      · exact right
    · exact propagated
  · exact propagated

omit left right in
theorem spelling_endsInOperand (op : BinaryOp) :
    endsInOperand op.spelling = false ∧ endsInOperand (utf8 "coercing " ++ op.spelling) = false := by
  cases op <;> decide

/-- A binary operator asks for operations with the right operands only. -/
theorem binaryOp_follows (op : BinaryOp) (offset : Nat) :
    (binaryOp op offset x y).Follows (Lowering.binaryOp op offset x y) := by
  obtain ⟨other, coercing⟩ := spelling_endsInOperand op
  cases op with
  | add | sub | mul | div | mod =>
    exact arithmetic_follows left right other List.mem_cons_self List.mem_cons_self offset
  | shl | sar | shr | bitAnd | bitOr | bitXor => exact onWords_follows left right other List.mem_cons_self offset
  | lt | gt | le | ge => exact order_follows left right other _ offset
  | eq | ne | strictEq | strictNe => exact equality_follows left right other coercing _ offset
  | land | lor => exact .quiet (logical_asks left right other offset)
  | instanceOf | isIn => exact .quiet (asks_unsupported (not_isRefusal other) offset)

omit left right y in
/-- Either form of a unary operator has a result for the same operands. -/
theorem unaryResult?_follows (op : UnaryOp) :
    unaryResult? op x = none ∧ Lowering.unaryResult? op x = none ∨
      ∃ result result', unaryResult? op x = some result ∧ Lowering.unaryResult? op x = some result' ∧
        result.Follows result' := by
  have minusOne (i : Int64) : (Called.binary .xor (.int i) (.int (-1))).Follows
      (Lowered.binary .xor (.int i) (.int (-1))) :=
    .ask (.binary .xor (.int i) (.int (-1))) ⟨List.mem_cons_self, rfl⟩
  cases op with
  | plus =>
    cases x with
    | int _ | float _ => exact .inr ⟨_, _, rfl, rfl, .pure (Value.plain_of_construct? rfl)⟩
    | _ => exact .inl ⟨rfl, rfl⟩
  | minus =>
    cases x with
    | int i => exact .inr ⟨_, _, rfl, rfl, .ask (.unary .neg (.int i)) List.mem_cons_self⟩
    | float f => exact .inr ⟨_, _, rfl, rfl, .ask (.unary .fneg (.float f)) List.mem_cons_self⟩
    | _ => exact .inl ⟨rfl, rfl⟩
  | not =>
    unfold unaryResult? Lowering.unaryResult?
    cases x.truthy? with
    | none => exact .inl ⟨rfl, rfl⟩
    | some truth => exact .inr ⟨_, _, rfl, rfl, .ask (.unary .not (.bool truth)) List.mem_cons_self⟩
  | bitNot =>
    cases x with
    | int i =>
      have word := Follows.ask (.unary .toInt32 (.int i)) List.mem_cons_self
      exact .inr ⟨_, _, rfl, rfl, word.bind (minusOne _)⟩
    | float f =>
      have word := Follows.ask (.unary .toInt32 (.float f)) (List.mem_cons_of_mem _ List.mem_cons_self)
      exact .inr ⟨_, _, rfl, rfl, word.bind (minusOne _)⟩
    | _ => exact .inl ⟨rfl, rfl⟩
  | typeof =>
    unfold unaryResult? Lowering.unaryResult?
    cases x.typeOf? with
    | none => exact .inl ⟨rfl, rfl⟩
    | some text => exact .inr ⟨_, _, rfl, rfl, .pure (Value.plain_of_construct? rfl)⟩
  | _ => exact .inl ⟨rfl, rfl⟩

omit right y in
theorem unaryOp_follows (op : UnaryOp) (offset : Nat) :
    (unaryOp op offset x).Follows (Lowering.unaryOp op offset x) := by
  have other : endsInOperand op.spelling = false := by cases op <;> decide
  rcases unaryResult?_follows op with ⟨none, none'⟩ | ⟨result, result', found, found', follows⟩
  · rw [unaryOp, Lowering.unaryOp, none, none']
    exact .quiet (asks_propagate other offset (List.forall_mem_singleton.mpr left))
  · rw [unaryOp, Lowering.unaryOp, found, found']
    exact follows

omit right y in
/-- Unary operators ask for operations with the right operands only. -/
theorem unaryOps_follows (ops : List UnaryOp) (offset : Nat) :
    (unaryOps ops offset x).Follows (Lowering.unaryOps ops offset x) := by
  induction ops with
  | nil => exact .pure left
  | cons op rest ih =>
    refine ih.bind (unaryOp_follows ?_ op offset)
    rw [← ih.value]
    exact ih.asks.plain

end Calling

namespace Tree

/-- The calls of a tree are typed and account for what its lowering performs. -/
theorem lower_asks {shape : Shape} (tree : Tree shape) {before : Value} (known : before.Plain) :
    (tree.lower before).Asks (tree.calls before) := by
  have void : Value.void.Plain := Value.plain_of_construct? rfl
  induction tree generalizing before with
  | nil => exact .pure known
  | absent => exact .pure known
  | cons _ _ ihHead ihTail => exact (ihHead known).bind (ihTail (ihHead known).plain)
  | present _ ih => exact ih known
  | ofStatement _ ih => exact ih known
  | ofBlock _ ih => exact ih known
  | declaration _ _ _ ih => exact ih known
  | ofInstantiation _ ih => exact ih known
  | instantiated _ ih => exact ih known
  | program _ _ ih => exact ih void
  | block _ _ ih => exact ih void
  | varStmt _ _ ih => exact ih void
  | exprStmt _ _ ih => exact ih void
  | labeled _ _ _ ih => exact ih void
  | defaultClause _ _ ih => exact ih void
  | catchClause _ _ _ ih => exact ih void
  | sequence _ _ ih => exact ih void
  | plain _ _ ih => exact ih void
  | paren _ _ ih => exact ih void
  | returnStmt _ _ ih => exact (ih void).last (asks_controlFlow (by decide) _)
  | throwStmt _ _ ih => exact (ih void).last (asks_controlFlow (by decide) _)
  | ifStmt _ _ _ _ ihCond ihYes ihNo =>
    exact (ihCond void).bind ((ihYes void).bind ((ihNo void).last (asks_controlFlow (by decide) _)))
  | doWhile _ _ _ ihBody ihCond => exact (ihBody void).bind ((ihCond void).last (asks_controlFlow (by decide) _))
  | whileStmt _ _ _ ihCond ihBody => exact (ihCond void).bind ((ihBody void).last (asks_controlFlow (by decide) _))
  | forStmt _ _ _ _ _ ihInit ihCond ihPost ihBody =>
    exact (ihInit void).bind ((ihCond void).bind ((ihPost void).bind
      ((ihBody void).last (asks_controlFlow (by decide) _))))
  | forVar _ _ _ _ _ ihDecls ihCond ihPost ihBody =>
    exact (ihDecls void).bind ((ihCond void).bind ((ihPost void).bind
      ((ihBody void).last (asks_controlFlow (by decide) _))))
  | forIn _ _ _ _ _ ihObject ihBody =>
    exact (ihObject void).bind ((ihBody void).last (asks_controlFlow (by decide) _))
  | forInVar _ _ _ _ ihDecl ihObject ihBody =>
    exact (ihDecl void).bind ((ihObject void).bind ((ihBody void).last (asks_controlFlow (by decide) _)))
  | withStmt _ _ _ ihObject ihBody =>
    exact (ihObject void).bind ((ihBody void).last (asks_controlFlow (by decide) _))
  | switchStmt _ _ _ _ _ ihTag ihCases ihFallback ihTrailing =>
    exact (ihTag void).bind ((ihCases void).bind ((ihFallback void).bind
      ((ihTrailing void).last (asks_controlFlow (by decide) _))))
  | caseClause _ _ _ ihValue ihBody => exact (ihValue void).bind (ihBody void)
  | tryStmt _ _ _ _ ihBody ihHandler ihCleanup =>
    exact (ihBody void).bind ((ihHandler void).bind ((ihCleanup void).last (asks_controlFlow (by decide) _)))
  | funcDecl _ _ _ _ =>
    exact ⟨rfl, List.forall_mem_nil _, Value.plain_of_construct? rfl,
      List.forall_mem_singleton.mpr (List.forall_mem_nil _)⟩
  | continueStmt _ _ => exact asks_controlFlow (by decide) _
  | breakStmt _ _ => exact asks_controlFlow (by decide) _
  | assign _ targets _ _ ihValue =>
    cases targets with
    | nil => exact ihValue void
    | cons _ _ => exact (ihValue void).last (asks_unsupported (not_isRefusal (by decide)) _)
  | ternary _ test yes no ihTest ihYes ihNo =>
    refine (ihTest void).bind ((ihYes void).bind ((ihNo void).last ?_))
    cases (test.lower .void).value.truthy? with
    | none =>
      exact asks_propagate (by decide) _ (List.forall_mem_singleton.mpr (ihTest void).plain)
    | some truth =>
      cases truth with
      | true => exact .pure (ihYes void).plain
      | false => exact .pure (ihNo void).plain
  | level _ _ _ _ ihHead ihOperations => exact (ihHead void).bind (ihOperations (ihHead void).plain)
  | operation _ op _ _ ih => exact (ih void).bind (Calling.binaryOp_follows known (ih void).plain op.1 _).asks
  | unary _ ops _ ih => exact (ih void).bind (Calling.unaryOps_follows (ih void).plain ops _).asks
  | update _ _ op ih =>
    cases op with
    | none => exact (ih void).last (.pure (ih void).plain)
    | some op =>
      have other : endsInOperand (utf8 "postfix " ++ op.spelling) = false := by cases op <;> decide
      exact (ih void).last (asks_propagate other _ (List.forall_mem_singleton.mpr (ih void).plain))
  | newExpr _ count _ ih =>
    cases count with
    | zero => exact ih void
    | succ _ => exact asks_unsupported (not_isRefusal (by decide)) _
  | member _ _ modifiers ih _ =>
    cases modifiers with
    | nil => exact ih void
    | cons _ _ => exact asks_unsupported (not_isRefusal (by decide)) _
  | target _ _ _ => exact .pure known
  | arguments _ _ _ => exact .pure known
  | ofArguments _ _ => exact .pure known
  | index _ _ _ => exact .pure known
  | property _ _ => exact .pure known
  | numberLit _ value =>
    obtain ⟨_, _ | _⟩ := value <;> exact .pure (Value.plain_of_construct? rfl)
  | instantiation | call | thisExpr | ident | arrayLit | funcExpr =>
    exact asks_unsupported (not_isRefusal (by decide)) _
  | _ => exact .pure (Value.plain_of_construct? rfl)

end Tree

namespace Call

theorem Answered.isUnsupported_iff {call : Call} (answered : call.Answered) :
    call.fold.value.isUnsupported = true ↔ call.Traps := by
  cases answered with
  | stops traps fold _ =>
    rw [fold]
    exact iff_of_true rfl traps
  | @records instr sound records =>
    rw [records.fold]
    refine iff_of_false (fun unsupported => ?_) sound
    have constant := records.result
    rw [Value.isConst_of_isUnsupported unsupported] at constant
    cases constant

theorem Answered.trace_of_isUnsupported {call : Call} (answered : call.Answered)
    (unsupported : call.fold.value.isUnsupported = true) : call.fold.trace = [] := by
  have traps := answered.isUnsupported_iff.mp unsupported
  cases answered with
  | stops _ fold _ => rw [fold]; rfl
  | records sound _ => exact absurd traps sound

/-- What a typed call records says how to call again. -/
theorem Typed.records {call : Call} (typed : call.Typed) {instr : Instr} (member : instr ∈ call.fold.trace) :
    call.Records instr := by
  cases typed.answered with
  | stops _ fold _ =>
    rw [fold] at member
    cases member
  | @records recorded _ records =>
    rw [records.fold] at member
    rwa [List.mem_singleton.mp member]

end Call

/-- A recorded instruction carries constants only. -/
theorem Call.Records.plain {call : Call} {instr : Instr} (records : call.Records instr) (index : Nat) :
    (LogEntry.instruction index instr).Plain := by
  intro construct member
  obtain ⟨v, carried, found⟩ := List.mem_filterMap.mp member
  have constants : ∀ v ∈ instr.result :: instr.args, v.isConst = true :=
    List.forall_mem_cons.mpr ⟨records.result, records.args⟩
  exact Value.plain_of_isConst (constants v carried) construct found

namespace Program

/-- All that is asked for when a program is lowered. -/
def calls (program : Program) : List Call := program.tree.calls .void

/-- All calls that lowering makes have operands of the right kinds, and the instructions are those that they record.
The only calls that give no constant are divisions of integers without a result, and these record nothing. No value
and no entry of the log carries an answer to operands of the wrong kinds. Every instruction has constants of the right
kinds for operands, and to perform its operation on them again gives the instruction and its result. -/
theorem lowerAfter_typed (program : Program) (recorded : Nat) :
    (program.lowerAfter recorded).trace = program.calls.flatMap (·.fold.trace) ∧
    (∀ call ∈ program.calls, call.Typed ∧ call.fold.value.Plain ∧
      (call.fold.value.isUnsupported = true ↔ call.Traps) ∧
      (call.fold.value.isUnsupported = true → call.fold.trace = [])) ∧
    (program.lowerAfter recorded).value.Plain ∧
    (∀ any ∈ program.tree.nodes, (any.node.lower .void).value.Plain) ∧
    (∀ withTrace, ∀ entry ∈ fullLog (program.lowerAfter recorded) withTrace, entry.Plain) ∧
    ∀ instr ∈ (program.lowerAfter recorded).trace, (∀ arg ∈ instr.args, arg.isConst = true) ∧
      ∃ call, instr.call? = some call ∧ call.Typed ∧ call.fold = ⟨instr.result, [instr]⟩ := by
  have void : Value.void.Plain := Value.plain_of_construct? rfl
  have asks : (program.tree.lower .void).Asks program.calls := program.tree.lower_asks void
  have again : ∀ instr ∈ (program.lowerAfter recorded).trace, ∃ call : Call, call.Typed ∧ call.Records instr := by
    intro instr member
    rw [show (program.lowerAfter recorded).trace = _ from asks.trace] at member
    obtain ⟨call, asked, member⟩ := List.mem_flatMap.mp member
    exact ⟨call, asks.typed call asked, (asks.typed call asked).records member⟩
  refine ⟨asks.trace, fun call asked => ?_, asks.plain, fun any _ => (any.node.lower_asks void).plain,
    fun withTrace entry member => ?_, fun instr member => ?_⟩
  · have answered := (asks.typed call asked).answered
    exact ⟨asks.typed call asked, answered.plain, answered.isUnsupported_iff, answered.trace_of_isUnsupported⟩
  · rcases List.mem_append.mp member with logged | traced
    · rcases List.mem_append.mp logged with logged | summary
      · exact asks.logged entry logged
      · rw [List.mem_singleton.mp summary]
        intro construct carried
        exact asks.plain construct (Option.mem_toList.mp carried)
    · cases withTrace with
      | false => cases traced
      | true =>
        obtain ⟨⟨instr, index⟩, inside, rfl⟩ := List.mem_map.mp traced
        obtain ⟨call, -, records⟩ := again instr (List.fst_mem_of_mem_zipIdx inside)
        exact records.plain index
  · obtain ⟨call, typed, records⟩ := again instr member
    exact ⟨records.args, call, records.again, typed, records.fold⟩

end Program

end EcmaFold
