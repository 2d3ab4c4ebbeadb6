import EcmaFold.Proofs.Lexer.LineStarts
import Mathlib.Data.List.Basic
import Mathlib.Data.List.GetD
import Mathlib.Data.Prod.Lex
import Mathlib.Order.Interval.Set.Defs
import Mathlib.Order.Monotone.Basic

/-!
Places are faithful. The line and the column of an offset are what the line terminators before it make them, so they
tell offsets apart and grow with them.
-/

namespace EcmaFold

/-! Search in the table -/

/-- The first index from `low` up to `high` that the test holds at, if it holds at all indices behind that one. -/
def bisect (test : Nat → Bool) (low high : Nat) : Nat :=
  if low < high then
    let middle := (low + high) / 2
    if test middle then bisect test low middle else bisect test (middle + 1) high
  else low
termination_by high - low

theorem bisect_eq {test : Nat → Bool} {low high index : Nat} (least : low ≤ index) (most : index ≤ high)
    (fails : ∀ i < index, test i = false) (holds : ∀ i, index ≤ i → i < high → test i = true) :
    bisect test low high = index := by
  fun_induction bisect test low high with
  | case1 low high less middle here ih =>
    have inside : index ≤ middle := by
      refine Nat.le_of_not_lt fun before => ?_
      rw [fails middle before] at here
      cases here
    exact ih least inside fun i behind below => holds i behind (by omega)
  | case2 low high less middle here ih =>
    have inside : middle < index := by
      refine Nat.lt_of_not_le fun behind => here (holds middle behind ?_)
      omega
    exact ih inside most holds
  | case3 low high stops => omega

/-- The line and the column, the line first. -/
def Position.lineColumn (p : Position) : Nat ×ₗ Nat := toLex (p.line, p.column)

namespace Lines

/-- The number of the last line that starts at the offset or before it, found by bisection in the table of all starts. -/
def bisectLine (lines : Lines) (offset : Nat) : Nat :=
  bisect (fun i => offset < (0 :: lines.laterStarts).getD i 0) 0 (0 :: lines.laterStarts).length

variable {starts : List Nat} {offset low high : Nat}

theorem takeWhile_eq_filter (increases : starts.Pairwise (· < ·)) (offset : Nat) :
    starts.takeWhile (· ≤ offset) = starts.filter (· ≤ offset) := by
  induction increases with
  | nil => rfl
  | @cons start starts above _ ih =>
    by_cases passed : start ≤ offset
    · rw [List.takeWhile_cons_of_pos (by simpa using passed), List.filter_cons_of_pos (by simpa using passed), ih]
    · rw [List.takeWhile_cons_of_neg (by simpa using passed), List.filter_cons_of_neg (by simpa using passed), eq_comm,
        List.filter_eq_nil_iff]
      intro later member
      have := above later member
      simp
      omega

/-- The starts at an offset or before it are the first ones of the table. -/
theorem getD_le_iff (increases : starts.Pairwise (· < ·)) {index : Nat} (inside : index < starts.length) :
    starts.getD index 0 ≤ offset ↔ index < (starts.filter (· ≤ offset)).length := by
  induction increases generalizing index with
  | nil => cases inside
  | @cons start starts above increases ih =>
    by_cases passed : start ≤ offset
    · rw [List.filter_cons_of_pos (by simpa using passed), List.length_cons]
      cases index with
      | zero => simpa using passed
      | succ index => rw [List.getD_cons_succ, ih (Nat.lt_of_succ_lt_succ inside), Nat.succ_lt_succ_iff]
    · have none : (start :: starts).filter (· ≤ offset) = [] := by
        rw [← takeWhile_eq_filter (.cons above increases), List.takeWhile_cons_of_neg (by simpa using passed)]
      rw [none]
      refine iff_of_false (fun least => passed ?_) (Nat.not_lt_zero _)
      cases index with
      | zero => exact least
      | succ index =>
        have inside := Nat.lt_of_succ_lt_succ inside
        rw [List.getD_cons_succ, List.getD_eq_getElem _ _ inside] at least
        exact Nat.le_trans (Nat.le_of_lt (above _ (List.getElem_mem inside))) least

theorem getLastD_filter_le (starts : List Nat) (offset : Nat) : (starts.filter (· ≤ offset)).getLastD 0 ≤ offset := by
  rw [List.getLastD_eq_getLast?]
  cases last : (starts.filter (· ≤ offset)).getLast? with
  | none => exact Nat.zero_le _
  | some start => simpa using (List.mem_filter.mp (List.mem_of_getLast? last)).2

theorem position_eq (file source : Bytes) (inside : offset ≤ source.length) :
    (ofSource file source).position offset =
      ⟨file, 1 + ((startsFrom 0 0 source).filter (· ≤ offset)).length,
        1 + (offset - ((startsFrom 0 0 source).filter (· ≤ offset)).getLastD 0), offset⟩ := by
  simp only [position, ofSource, Nat.min_eq_left inside, takeWhile_eq_filter (startsFrom_increases 0 source),
    Nat.add_comm 1]

/-- Bisection finds the line. -/
theorem bisectLine_eq (file source : Bytes) (offset : Nat) : (ofSource file source).bisectLine offset =
    1 + ((startsFrom 0 0 source).filter (· ≤ offset)).length := by
  have increases := startsFrom_increases 0 source
  have fewer := List.length_filter_le (· ≤ offset) (startsFrom 0 0 source)
  have passed {index : Nat} (inside : index < (startsFrom 0 0 source).length) :=
    @getD_le_iff _ offset increases index inside
  refine bisect_eq (Nat.zero_le _) ?_ (fun index before => ?_) fun index behind inside => ?_
  · simp only [ofSource, List.length_cons]
    omega
  · cases index with
    | zero => simp
    | succ index =>
      rw [decide_eq_false_iff_not, Nat.not_lt]
      exact (passed (by omega)).mpr (by omega)
  · cases index with
    | zero => omega
    | succ index =>
      rw [decide_eq_true_iff]
      refine Nat.lt_of_not_le fun least => ?_
      have := (passed (Nat.lt_of_succ_lt_succ inside)).mp least
      omega

/-- The ends passed up to a place are passed up to any later place, and first. -/
theorem filter_sublist (before : low ≤ high) (starts : List Nat) :
    (starts.filter (· ≤ low)).Sublist (starts.filter (· ≤ high)) :=
  List.monotone_filter_right starts fun start passed => by
    simp only [decide_eq_true_eq] at passed ⊢
    exact Nat.le_trans passed before

theorem lineColumn_lt (file : Bytes) {source : Bytes} (before : low < high) (inside : high ≤ source.length) :
    ((ofSource file source).position low).lineColumn < ((ofSource file source).position high).lineColumn := by
  have kept := filter_sublist (Nat.le_of_lt before) (startsFrom 0 0 source)
  have last := getLastD_filter_le (startsFrom 0 0 source) low
  rw [position_eq file source inside, position_eq file source (Nat.le_trans (Nat.le_of_lt before) inside),
    Position.lineColumn, Position.lineColumn, Prod.Lex.toLex_lt_toLex]
  rcases Nat.lt_or_eq_of_le kept.length_le with fewer | same
  · exact .inl (Nat.add_lt_add_left fewer 1)
  · rw [kept.eq_of_length same] at last ⊢
    exact .inr ⟨rfl, Nat.add_lt_add_left (by omega) 1⟩

/-- There is one way to find the line terminators of a source from left to right. The line of an offset counts those
that end at it or before it, and so does the line that bisection finds; its column counts the bytes from the end of the
last of them. So offsets have different lines or columns, which increase with them. -/
theorem position_faithful (file source : Bytes) : ∃ ends,
    (∀ found, TerminatorEnds 0 source found ↔ found = ends) ∧
    (ofSource file source).count = 1 + ends.length ∧
    (∀ offset ≤ source.length, ∃ passed last, passed = ends.filter (· ≤ offset) ∧ last = passed.getLastD 0 ∧
      last ≤ offset ∧ (ofSource file source).position offset = ⟨file, 1 + passed.length, 1 + (offset - last), offset⟩ ∧
      (ofSource file source).bisectLine offset = 1 + passed.length) ∧
    StrictMonoOn (fun offset => ((ofSource file source).position offset).lineColumn) (Set.Iic source.length) ∧
    Set.InjOn (fun offset => ((ofSource file source).position offset).lineColumn) (Set.Iic source.length) := by
  have increases : StrictMonoOn (fun offset => ((ofSource file source).position offset).lineColumn)
      (Set.Iic source.length) := fun low _ high inside before => lineColumn_lt file before inside
  refine ⟨startsFrom 0 0 source, fun found => terminatorEnds_iff, Nat.add_comm _ _, fun offset inside => ?_, increases,
    increases.injOn⟩
  exact ⟨_, _, rfl, rfl, getLastD_filter_le _ offset, position_eq file source inside, bisectLine_eq file source offset⟩

end Lines

end EcmaFold
