import EcmaFold.Lexeme
import EcmaFold.Proofs.Text.Utf8

/-!
How names are spelled, and that what is read as a name is read as the same name wherever it is followed by
something that does not go on with it.
-/

namespace EcmaFold

/-- What holds of every number below 256 holds of every byte. -/
theorem Bytes.forall_byte {p : UInt8 → Prop} (all : ∀ n < 256, p (UInt8.ofNat n)) : ∀ b, p b := by
  intro b
  have holds := all b.toNat b.toNat_lt
  rwa [UInt8.ofNat_toNat] at holds

namespace Name

theorem partWidth_pending {pending : Nat} {bytes : Bytes} (inside : pending ≤ bytes.length) :
    partWidth pending bytes = pending + partWidth 0 (bytes.drop pending) := by
  induction pending generalizing bytes with
  | zero => simp
  | succ pending ih =>
    obtain _ | ⟨b, rest⟩ := bytes
    · cases inside
    · rw [partWidth, ih (by simpa using inside)]
      simp only [List.drop_succ_cons]
      omega

/-- One more character in front. -/
theorem partWidth_encode {c : Char} {rest : Bytes} (part : isPart c = true) :
    partWidth 0 (Utf8.encode c ++ rest) = (Utf8.encode c).length + partWidth 0 rest := by
  have positive := Utf8.encode_length_pos c
  have decoded := Utf8.decode?_encode c rest
  cases bytes : Utf8.encode c with
  | nil => simp [bytes] at positive
  | cons b tail =>
    rw [bytes, List.cons_append] at decoded
    rw [List.cons_append, partWidth, decoded]
    simp only [part, if_true, List.length_cons, Nat.add_sub_cancel]
    rw [partWidth_pending (by simp), List.drop_left']
    · omega
    · rfl

theorem partWidth_of_not_goesOn {rest : Bytes} (stops : goesOn rest = false) : partWidth 0 rest = 0 := by
  unfold goesOn at stops
  cases rest with
  | nil => rfl
  | cons b tail =>
    rw [partWidth]
    split
    · rename_i c width found
      rw [found] at stops
      simp [stops]
    · rfl

theorem partWidth_chars {chars : List Char} {rest : Bytes} (parts : ∀ c ∈ chars, isPart c = true)
    (stops : goesOn rest = false) :
    partWidth 0 (chars.flatMap Utf8.encode ++ rest) = (chars.flatMap Utf8.encode).length := by
  induction chars with
  | nil => exact partWidth_of_not_goesOn stops
  | cons c chars ih =>
    rw [List.flatMap_cons, List.append_assoc, partWidth_encode (parts c List.mem_cons_self),
      ih fun c member => parts c (List.mem_cons_of_mem _ member), List.length_append]

/-- The bytes begin with characters of a name, as many as there are. -/
theorem exists_chars (bytes : Bytes) : ∃ (chars : List Char) (rest : Bytes),
    (∀ c ∈ chars, isPart c = true) ∧ goesOn rest = false ∧ bytes = chars.flatMap Utf8.encode ++ rest := by
  generalize length : bytes.length = n
  induction n using Nat.strongRecOn generalizing bytes with
  | _ n ih =>
    cases goes : goesOn bytes with
    | false => exact ⟨[], bytes, by simp, goes, rfl⟩
    | true =>
      unfold goesOn at goes
      split at goes
      · rename_i c width found
        obtain ⟨rest, rfl, rfl⟩ := Utf8.decode?_eq_some found
        have positive := Utf8.encode_length_pos c
        rw [List.length_append] at length
        obtain ⟨chars, last, parts, stops, same⟩ := ih rest.length (by omega) rest rfl
        refine ⟨c :: chars, last, List.forall_mem_cons.mpr ⟨goes, parts⟩, stops, ?_⟩
        rw [List.flatMap_cons, List.append_assoc, same]
      · cases goes

/-- The text is spelled as a name. -/
def IsSpelling (text : Bytes) : Prop :=
  ∃ c chars, isStart c = true ∧ (∀ d ∈ chars, isPart d = true) ∧ text = (c :: chars).flatMap Utf8.encode

theorem isPart_of_isStart {c : Char} (start : isStart c = true) : isPart c = true := by
  simp [isPart, start]

theorem read?_append {text rest : Bytes} (spelling : IsSpelling text) (stops : goesOn rest = false) :
    read? (text ++ rest) = some text := by
  obtain ⟨c, chars, start, parts, rfl⟩ := spelling
  have widths : width ((c :: chars).flatMap Utf8.encode ++ rest) = ((c :: chars).flatMap Utf8.encode).length := by
    have decoded : Utf8.decode? ((c :: chars).flatMap Utf8.encode ++ rest) =
        some (c, (Utf8.encode c).length) := by
      rw [List.flatMap_cons, List.append_assoc, Utf8.decode?_encode]
    rw [width, decoded]
    simp only [start, if_true]
    exact partWidth_chars (List.forall_mem_cons.mpr ⟨isPart_of_isStart start, parts⟩) stops
  have positive := Utf8.encode_length_pos c
  have nonempty : width ((c :: chars).flatMap Utf8.encode ++ rest) ≠ 0 := by
    rw [widths, List.flatMap_cons, List.length_append]
    omega
  rw [read?, if_neg nonempty, widths, List.take_left']
  rfl

/-- A name is read up to where nothing goes on with it. -/
theorem read?_eq_some {bytes text : Bytes} (found : read? bytes = some text) :
    IsSpelling text ∧ ∃ rest, bytes = text ++ rest ∧ goesOn rest = false := by
  obtain ⟨chars, rest, parts, stops, rfl⟩ := exists_chars bytes
  have widths := partWidth_chars parts stops
  unfold read? width at found
  cases decoded : Utf8.decode? (chars.flatMap Utf8.encode ++ rest) with
  | none => simp [decoded] at found
  | some head =>
    obtain ⟨c, w⟩ := head
    by_cases start : isStart c = true
    · simp only [decoded, start, if_true, widths, List.take_left] at found
      split at found
      · cases found
      · cases found
        cases chars with
        | nil =>
          simp only [goesOn, show Utf8.decode? rest = some (c, w) from decoded,
            isPart_of_isStart start] at stops
          cases stops
        | cons d chars =>
          rw [List.flatMap_cons, List.append_assoc, Utf8.decode?_encode] at decoded
          cases decoded
          exact ⟨⟨c, chars, start, fun d member => parts d (List.mem_cons_of_mem _ member), rfl⟩, rest, rfl, stops⟩
    · simp [decoded, start] at found

theorem read?_self {bytes text : Bytes} (found : read? bytes = some text) : read? text = some text := by
  simpa using @read?_append _ [] (read?_eq_some found).1 rfl

end Name

end EcmaFold
