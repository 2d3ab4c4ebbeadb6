import EcmaFold.Proofs.Lexer.Lookahead

/-!
Where lines start. The table of a source holds the ends of its line terminators, found from left to right, and nothing
else, so it increases strictly.
-/

namespace EcmaFold

/-- The text is a line terminator in front of the rest. A carriage return that a line feed follows is none by itself. -/
inductive IsTerminator : (text rest : Bytes) → Prop where
  | feed {rest : Bytes} : IsTerminator [0x0A] rest
  | carriage {rest : Bytes} (alone : rest.head? ≠ some 0x0A) : IsTerminator [0x0D] rest
  | pair {rest : Bytes} : IsTerminator [0x0D, 0x0A] rest
  | line {rest : Bytes} : IsTerminator (utf8 "\u2028") rest
  | paragraph {rest : Bytes} : IsTerminator (utf8 "\u2029") rest

theorem IsTerminator.lineTerminator? {text rest : Bytes} (isTerminator : IsTerminator text rest) :
    EcmaFold.lineTerminator? (text ++ rest) = some text.length := by
  cases isTerminator with
  | carriage alone => rw [List.singleton_append, lineTerminator?_cons, if_neg (by decide), if_pos rfl, if_neg alone]; rfl
  | _ => rfl

/-- A terminator that begins inside another one ends with it. -/
theorem IsTerminator.end_eq {text rest : Bytes} (isTerminator : IsTerminator text rest) {k width : Nat}
    (inside : k < text.length) (found : EcmaFold.lineTerminator? ((text ++ rest).drop k) = some width) :
    k + width = text.length := by
  cases k with
  | zero =>
    rw [List.drop_zero, isTerminator.lineTerminator?] at found
    cases found
    exact Nat.zero_add _
  | succ k =>
    cases isTerminator with
    | feed | carriage => cases Nat.lt_of_succ_lt_succ inside
    | pair =>
      obtain rfl : k = 0 := Nat.lt_one_iff.mp (Nat.lt_of_succ_lt_succ inside)
      cases found
      rfl
    | line | paragraph =>
      have short : k + 1 < 3 := inside
      obtain rfl | rfl : k = 0 ∨ k = 1 := by omega
      · cases found
      · cases found

theorem exists_isTerminator {bytes : Bytes} {width : Nat} (found : lineTerminator? bytes = some width) :
    ∃ text rest, bytes = text ++ rest ∧ width = text.length ∧ IsTerminator text rest := by
  unfold lineTerminator? at found
  split at found <;> cases found
  · exact ⟨[0x0A], _, rfl, rfl, .feed⟩
  · exact ⟨[0x0D, 0x0A], _, rfl, rfl, .pair⟩
  · rename_i rest noPair
    refine ⟨[0x0D], rest, rfl, rfl, .carriage fun feed => ?_⟩
    obtain ⟨tail, rfl⟩ := List.head?_eq_some_iff.mp feed
    exact noPair tail rfl
  · exact ⟨utf8 "\u2028", _, rfl, rfl, .line⟩
  · exact ⟨utf8 "\u2029", _, rfl, rfl, .paragraph⟩

/-- The offsets where line terminators end that are found from left to right in the bytes, which stand at `offset`. -/
inductive TerminatorEnds : (offset : Nat) → (bytes : Bytes) → (ends : List Nat) → Prop where
  | done {offset : Nat} : TerminatorEnds offset [] []
  | terminator {offset : Nat} {text rest : Bytes} {ends : List Nat} (isTerminator : IsTerminator text rest)
      (more : TerminatorEnds (offset + text.length) rest ends) :
      TerminatorEnds offset (text ++ rest) ((offset + text.length) :: ends)
  | other {offset : Nat} {b : UInt8} {rest : Bytes} {ends : List Nat}
      (none : ∀ text behind, text ++ behind = b :: rest → ¬ IsTerminator text behind)
      (more : TerminatorEnds (offset + 1) rest ends) : TerminatorEnds offset (b :: rest) ends

namespace Lines

theorem startsFrom_pending (pending offset : Nat) (bytes : Bytes) :
    startsFrom pending offset bytes = startsFrom 0 (offset + pending) (bytes.drop pending) := by
  induction bytes generalizing pending offset with
  | nil => cases pending <;> rfl
  | cons b rest ih =>
    cases pending with
    | zero => rfl
    | succ pending => rw [startsFrom, ih, List.drop_succ_cons, Nat.add_assoc, Nat.add_comm 1]

theorem startsFrom_of_isTerminator {text rest : Bytes} (isTerminator : IsTerminator text rest) (offset : Nat) :
    startsFrom 0 offset (text ++ rest) = (offset + text.length) :: startsFrom 0 (offset + text.length) rest := by
  have found := isTerminator.lineTerminator?
  have positive := StringLiteral.lineTerminator?_pos found
  cases text with
  | nil => cases positive
  | cons b text =>
    rw [List.cons_append] at found
    rw [List.cons_append, startsFrom, found]
    simp only [List.length_cons, Nat.add_sub_cancel]
    rw [startsFrom_pending, List.drop_left, Nat.add_assoc offset 1, Nat.add_comm 1]

theorem startsFrom_of_none {b : UInt8} {rest : Bytes} (none : lineTerminator? (b :: rest) = none) (offset : Nat) :
    startsFrom 0 offset (b :: rest) = startsFrom 0 (offset + 1) rest := by
  rw [startsFrom, none]

/-- The table holds the ends of the terminators, as they are found. -/
theorem terminatorEnds_startsFrom (offset : Nat) (bytes : Bytes) :
    TerminatorEnds offset bytes (startsFrom 0 offset bytes) := by
  generalize length : bytes.length = n
  induction n using Nat.strongRecOn generalizing offset bytes with
  | _ n ih =>
    cases bytes with
    | nil => exact .done
    | cons b rest =>
      cases found : lineTerminator? (b :: rest) with
      | some width =>
        obtain ⟨text, behind, same, -, isTerminator⟩ := exists_isTerminator found
        have positive := StringLiteral.lineTerminator?_pos isTerminator.lineTerminator?
        rw [same, List.length_append] at length
        rw [same, startsFrom_of_isTerminator isTerminator]
        exact .terminator isTerminator (ih behind.length (by omega) _ behind rfl)
      | none =>
        rw [startsFrom_of_none found]
        refine .other (fun text behind same isTerminator => ?_) (ih rest.length (by simp [← length]) _ rest rfl)
        rw [← same, isTerminator.lineTerminator?] at found
        cases found

/-- No other way of finding them gives other ends. -/
theorem terminatorEnds_iff {offset : Nat} {bytes : Bytes} {ends : List Nat} :
    TerminatorEnds offset bytes ends ↔ ends = startsFrom 0 offset bytes := by
  constructor
  · intro found
    induction found with
    | done => rfl
    | terminator isTerminator _ ih => rw [ih, startsFrom_of_isTerminator isTerminator]
    | @other offset b rest ends none _ ih =>
      have nothing : lineTerminator? (b :: rest) = Option.none := by
        refine Option.eq_none_iff_forall_ne_some.mpr fun width found => ?_
        obtain ⟨text, behind, same, -, isTerminator⟩ := exists_isTerminator found
        exact none text behind same.symm isTerminator
      rw [ih, startsFrom_of_none nothing]
  · rintro rfl
    exact terminatorEnds_startsFrom offset bytes

/-- The end of every terminator is in the table. A line feed inside a terminator ends where the terminator does. -/
theorem mem_startsFrom {offset k width : Nat} {bytes : Bytes} (found : lineTerminator? (bytes.drop k) = some width) :
    offset + k + width ∈ startsFrom 0 offset bytes := by
  have scanned := terminatorEnds_startsFrom offset bytes
  generalize startsFrom 0 offset bytes = ends at scanned
  induction scanned generalizing k with
  | done =>
    rw [List.drop_nil] at found
    cases found
  | @terminator offset text rest ends isTerminator _ ih =>
    by_cases behind : text.length ≤ k
    · obtain ⟨k, rfl⟩ := Nat.exists_eq_add_of_le behind
      rw [List.drop_length_add_append] at found
      have later := ih found
      rw [Nat.add_assoc offset] at later
      exact List.mem_cons_of_mem _ later
    · rw [Nat.add_assoc, isTerminator.end_eq (Nat.lt_of_not_le behind) found]
      exact List.mem_cons_self
  | @other offset b rest ends none _ ih =>
    cases k with
    | zero =>
      obtain ⟨text, behind, same, -, isTerminator⟩ := exists_isTerminator found
      exact absurd isTerminator (none text behind same.symm)
    | succ k =>
      have later := ih found
      rwa [Nat.add_assoc offset, Nat.add_comm 1] at later

theorem lt_of_mem_startsFrom {pending offset start : Nat} {bytes : Bytes}
    (member : start ∈ startsFrom pending offset bytes) : offset < start := by
  induction bytes generalizing pending offset with
  | nil => cases pending <;> cases member
  | cons b rest ih =>
    cases pending with
    | succ pending => exact Nat.lt_of_succ_lt (ih member)
    | zero =>
      rw [startsFrom] at member
      split at member
      · rename_i width found
        rcases List.mem_cons.mp member with rfl | later
        · exact Nat.lt_add_of_pos_right (StringLiteral.lineTerminator?_pos found)
        · exact Nat.lt_of_succ_lt (ih later)
      · exact Nat.lt_of_succ_lt (ih member)

/-- The table increases strictly. -/
theorem startsFrom_increases (offset : Nat) (bytes : Bytes) : (startsFrom 0 offset bytes).Pairwise (· < ·) := by
  have found := terminatorEnds_startsFrom offset bytes
  generalize startsFrom 0 offset bytes = ends at found
  induction found with
  | done => exact .nil
  | terminator _ more ih =>
    refine .cons (fun start member => ?_) ih
    rw [terminatorEnds_iff.mp more] at member
    exact lt_of_mem_startsFrom member
  | other _ _ ih => exact ih

end Lines

end EcmaFold
