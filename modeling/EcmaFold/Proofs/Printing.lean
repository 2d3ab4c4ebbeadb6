import EcmaFold.Proofs.DistinctDumps

/-!
Printing a program with an indent to a sink that fills up. The sink gets the beginning of the indented dump that it
has room for, and it fails if that is not all.
-/

namespace EcmaFold

/-- What a text becomes if `base` is put before each of its lines. A line ends with a line feed; `begins` tells
whether one begins with the first byte. -/
def Bytes.indentFrom (base : Bytes) : (begins : Bool) → Bytes → Bytes
  | _, [] => []
  | begins, b :: rest => (if begins then base else []) ++ b :: indentFrom base (b == 0x0A) rest

/-- The text with `base` before each of its lines. -/
def Bytes.indentLines (base text : Bytes) : Bytes := indentFrom base true text

/-! Sinks -/

namespace Sink

/-- The sink had room for `limit` bytes and `written` was written to it. -/
structure Took (limit : Nat) (written : Bytes) (sink : Sink) : Prop where
  stored : sink.stored = written.take limit
  room : sink.room = limit - written.length
  failed : sink.failed = true ↔ limit < written.length

variable {limit : Nat} {written : Bytes} {sink : Sink}

theorem took_ofLimit (limit : Nat) : (ofLimit limit).Took limit [] where
  stored := List.take_nil.symm
  room := rfl
  failed := ⟨nofun, fun less => (Nat.not_lt_zero limit less).elim⟩

theorem Took.write (took : sink.Took limit written) (bytes : Bytes) :
    (sink.write bytes).Took limit (written ++ bytes) := by
  have room := took.room
  cases full : sink.failed with
  | true =>
    have less := took.failed.mp full
    have same : sink.write bytes = sink := by rw [Sink.write, if_pos full]
    rw [same]
    refine ⟨?_, ?_, ?_⟩
    · rw [took.stored, List.take_append_of_le_length (Nat.le_of_lt less)]
    · rw [room, List.length_append]
      omega
    · rw [took.failed, List.length_append]
      omega
  | false =>
    have fits : written.length ≤ limit := Nat.not_lt.mp fun less => by simp [took.failed.mpr less] at full
    rw [Sink.write, if_neg (by simp [full])]
    refine ⟨?_, ?_, ?_⟩
    · rw [took.stored, room, List.take_append, List.take_of_length_le fits]
    · simp only [room, List.length_append]
      omega
    · simp only [decide_eq_true_eq, room, List.length_append]
      omega

theorem Took.writeAll (took : sink.Took limit written) (writes : List Bytes) :
    (sink.writeAll writes).Took limit (written ++ writes.flatten) := by
  induction writes generalizing sink written with
  | nil => simpa [Sink.writeAll] using took
  | cons first rest ih =>
    have more := ih (took.write first)
    rwa [List.append_assoc] at more

end Sink

/-- Of a dump a sink holds what it had room for. -/
theorem Tree.print_took {kind : Kind} (node : Node kind) (indent : Int) (limit : Nat) :
    (node.print indent limit).Took limit (node.dump indent) :=
  (Sink.took_ofLimit limit).writeAll (node.dumpWrites indent)

/-! Lines -/

namespace Bytes

variable {base text : Bytes}

theorem noFeed_of_labelBytes (all : text.all Dump.isLabelByte = true) : 0x0A ∉ text := fun member => by
  cases List.all_eq_true.mp all _ member

theorem noFeed_of_isWord (isWord : Dump.IsWord text) : 0x0A ∉ text := fun member => by
  cases List.all_eq_true.mp isWord.2 _ member

theorem noFeed_flatMap {α : Type} {list : List α} {shown : α → Bytes} (each : ∀ a ∈ list, 0x0A ∉ shown a) :
    0x0A ∉ list.flatMap shown := fun member => by
  obtain ⟨a, inside, written⟩ := List.mem_flatMap.mp member
  exact each a inside written

theorem noFeed_hex (width n : Nat) : 0x0A ∉ hex width n := by
  have digit : ∀ n < 16, 0x0A ≠ hexDigit n := by decide
  induction width generalizing n with
  | zero => exact List.not_mem_nil
  | succ width ih =>
    exact List.not_mem_append (ih _) fun last => digit _ (Nat.mod_lt n (by decide)) (List.mem_singleton.mp last)

/-- Inside a line nothing is put in. -/
theorem indentFrom_inside (inside : 0x0A ∉ text) (rest : Bytes) :
    indentFrom base false (text ++ rest) = text ++ indentFrom base false rest := by
  induction text with
  | nil => rfl
  | cons b text ih =>
    have other := (List.ne_of_not_mem_cons inside).symm
    rw [List.cons_append, indentFrom, beq_false_of_ne other, ih (List.not_mem_of_not_mem_cons inside)]
    rfl

/-- The base is put in where a line begins. -/
theorem indentFrom_begins (nonempty : text ≠ []) :
    indentFrom base true text = base ++ indentFrom base false text := by
  cases text with
  | nil => exact absurd rfl nonempty
  | cons b rest => rfl

theorem indentFrom_feed (nonempty : text ≠ []) :
    indentFrom base false (utf8 "\n" ++ text) = utf8 "\n" ++ (base ++ indentFrom base false text) :=
  congrArg (0x0A :: ·) (indentFrom_begins nonempty)

end Bytes

open Bytes

namespace Quoted

/-- A line feed is escaped in a debug text. -/
theorem noFeed_debugChar (c : Char) : 0x0A ∉ debugChar c := by
  unfold debugChar
  split
  · rename_i short
    unfold shortEscape? at short
    split at short <;> cases short <;> decide
  rename_i plain
  split
  · decide
  split
  · intro written
    by_cases ascii : c.toNat < 0x80
    · have single := Utf8.encode_one ascii
      rw [single, List.mem_singleton] at written
      obtain rfl := Utf8.eq_of_encode_ascii (d := '\n') (single.trans (congrArg ([·]) written.symm)) (by decide)
      cases plain
    · exact absurd (Utf8.encode_wide ascii _ written) (by decide)
  split
  · exact List.not_mem_append (by decide) (noFeed_hex _ _)
  split
  · exact List.not_mem_append (by decide) (noFeed_hex _ _)
  · exact List.not_mem_append (by decide) (noFeed_hex _ _)

theorem noFeed_debug (text : Bytes) : 0x0A ∉ debug text := by
  have inside : 0x0A ∉ (Utf8.runes text).flatMap debugRune := by
    refine noFeed_flatMap fun rune _ => ?_
    obtain ⟨_ | c, bad⟩ := rune
    · exact List.not_mem_append (by decide) (noFeed_hex _ _)
    · exact noFeed_debugChar c
  rw [debug_eq]
  exact List.not_mem_append (List.not_mem_cons_of_ne_of_not_mem (by decide) inside) (by decide)

end Quoted

theorem Attribute.noFeed_text {a : Attribute} (clean : a.Clean) : 0x0A ∉ a.text := by
  cases a with
  | word text => exact noFeed_of_isWord clean
  | quoted text => exact Quoted.noFeed_debug text
  | params names =>
    refine List.not_mem_append (List.not_mem_append (by decide) ?_) (by decide)
    cases names with
    | nil => exact List.not_mem_nil
    | cons first names =>
      obtain ⟨isWord, more⟩ := List.forall_mem_cons.mp clean
      rw [Dump.join_cons]
      refine List.not_mem_append (noFeed_of_isWord isWord) (noFeed_flatMap fun n member => ?_)
      exact List.not_mem_append (by decide) (noFeed_of_isWord (more n member))

/-- The lines of an outline in a dump with a base are those in a dump without one, with the base before each. -/
theorem Outline.indentFrom_lines {outline : Outline} (clean : outline.Clean) (base : Bytes) (depth : Nat)
    (rest : Bytes) :
    indentFrom base false (outline.lines [] depth ++ rest) = outline.lines base depth ++ indentFrom base false rest := by
  induction outline generalizing depth rest with
  | nil => rfl
  | item label title attributes below more ihBelow ihMore =>
    obtain ⟨isLabel, cleanAttributes, cleanBelow, cleanMore⟩ := clean
    have blanks : 0x0A ∉ Bytes.spaces (2 * depth) := fun member => by cases List.eq_of_mem_replicate member
    have shown : 0x0A ∉ attributes.flatMap (fun a => utf8 " " ++ a.text) :=
      noFeed_flatMap fun a member => List.not_mem_append (by decide) (Attribute.noFeed_text (cleanAttributes a member))
    have opens (behind : Bytes) : Bytes.spaces (2 * depth) ++ (label ++ (utf8 "(" ++ behind)) ≠ [] :=
      List.append_ne_nil_of_right_ne_nil _ (List.append_ne_nil_of_right_ne_nil _ (List.cons_ne_nil _ _))
    have opening : 0x0A ∉ utf8 "(" := by decide
    have closing : 0x0A ∉ utf8 ")" := by decide
    simp only [lines, List.nil_append, List.append_assoc]
    rw [indentFrom_feed (opens _), indentFrom_inside blanks, indentFrom_inside (noFeed_of_labelBytes isLabel),
      indentFrom_inside opening, indentFrom_inside (noFeed_of_isWord title.text_isWord), indentFrom_inside shown,
      ihBelow cleanBelow, indentFrom_inside closing, ihMore cleanMore]

/-- An indented dump is the dump without indent, with the indent before each of its lines. -/
theorem Tree.dump_indent {tree : Node .program} (proper : tree.All Proper) (indent : Int) :
    tree.dump indent = indentLines (Bytes.spaces indent.toNat) (tree.dump 0) := by
  cases tree with
  | program span elements =>
    have opening : 0x0A ∉ utf8 "(Program" := by decide
    have closing : 0x0A ∉ utf8 ")" := by decide
    have nonempty (behind : Bytes) : utf8 "(Program" ++ behind ≠ [] := List.cons_ne_nil _ _
    rw [dump_program, dump_program]
    change _ = indentFrom _ true (utf8 "(Program" ++ _)
    rw [indentFrom_begins (nonempty _), indentFrom_inside opening]
    change _ = _ ++ (_ ++ indentFrom _ false (elements.outline.lines [] 1 ++ _))
    rw [Outline.indentFrom_lines (outline_clean proper.2), indentFrom_inside closing]
    rfl

namespace Program

/-- What stands in a sink with room for `limit` bytes after an accepted program was printed to it: as much as fits of
the dump with the indent before each line. The printer reports a failure if that is not all. -/
theorem print_of_parse {file source : Bytes} {program : Program} (accepted : parse file source = .ok program)
    (indent : Int) (limit : Nat) :
    let shown := indentLines (Bytes.spaces (max indent 0).toNat) (program.tree.dump 0)
    (program.tree.print indent limit).stored = shown.take (min limit shown.length) ∧
      ((program.tree.print indent limit).failed = true ↔ limit < shown.length) := by
  obtain ⟨proper, -⟩ := parse_covers accepted
  have took := program.tree.print_took indent limit
  have spaces : (max indent 0).toNat = indent.toNat := by omega
  rw [Tree.dump_indent proper indent] at took
  intro shown
  simp only [shown, spaces]
  exact ⟨took.stored.trans (List.take_eq_take_min ..), took.failed⟩

/-- A sink that fills up inside a string with a line feed in it. -/
theorem print_of_parse_string :
    ∃ program, parse [] (utf8 "a = '\\n(';") = .ok program ∧ (program.tree.print 2 76).failed = true ∧
      (program.tree.print 2 76).stored =
        utf8 "  (Program\n    (ExprStmt\n      (Assign\n        (Ident a)\n        = (String \"" := by
  have complete : (readPart (utf8 "a = '\\n(';")).complete = true := by decide +kernel
  have accepted := @parse_of_complete [] _ complete
  obtain ⟨stored, failed⟩ := print_of_parse accepted 2 76
  exact ⟨_, accepted, failed.mpr (by decide +kernel), stored.trans (by decide +kernel)⟩

end Program

end EcmaFold
