import EcmaFold.Lexer.Name
import EcmaFold.Operator

/-!
The vocabulary read back: an operator from its token, and a reserved word from its spelling.
-/

namespace EcmaFold

theorem UpdateOp.token_of_ofToken? {t : Token} {op : UpdateOp} (found : ofToken? t = some op) : op.token = t := by
  cases t with
  | punct p => cases p <;> cases found <;> rfl
  | _ => cases found

theorem UnaryOp.token_of_ofToken? {t : Token} {op : UnaryOp} (found : ofToken? t = some op) : op.token = t := by
  cases t with
  | keyword w => cases w <;> cases found <;> rfl
  | punct p => cases p <;> cases found <;> rfl
  | _ => cases found

theorem AssignOp.token_of_ofToken? {t : Token} {op : AssignOp} (found : ofToken? t = some op) : op.token = t := by
  cases t with
  | punct p => cases p <;> cases found <;> rfl
  | _ => cases found

theorem BinaryOp.token_of_ofToken? {t : Token} {op : BinaryOp} (found : ofToken? t = some op) : op.token = t := by
  cases t with
  | keyword w => cases w <;> cases found <;> rfl
  | punct p => cases p <;> cases found <;> rfl
  | _ => cases found

theorem AssignOp.ofToken?_token (op : AssignOp) : ofToken? op.token = some op := by
  cases op <;> rfl

theorem UnaryOp.ofToken?_token (op : UnaryOp) : ofToken? op.token = some op := by
  cases op <;> rfl

theorem UpdateOp.ofToken?_token (op : UpdateOp) : ofToken? op.token = some op := by
  cases op <;> rfl

theorem BinaryOp.ofToken?_token (op : BinaryOp) : ofToken? op.token = some op := by
  cases op <;> rfl

theorem Tier.opOf?_eq_some {tier : Tier} {allowIn : Bool} {t : Token} {op : tier.Op} (found : tier.opOf? allowIn t = some op) :
    op.1.token = t ∧ (allowIn = false → op.1 ≠ .isIn) := by
  unfold Tier.opOf? at found
  split at found
  · rename_i op' spelled
    split at found
    · split at found
      · cases found
      · rename_i allowed
        cases found
        refine ⟨BinaryOp.token_of_ofToken? spelled, fun noIn isIn => allowed ⟨isIn, noIn⟩⟩
    · cases found
  · cases found

theorem Tier.opOf?_token {tier : Tier} {allowIn : Bool} (op : tier.Op) (allowed : allowIn = false → op.1 ≠ .isIn) :
    tier.opOf? allowIn op.1.token = some op := by
  have permitted : ¬ (op.1 = .isIn ∧ allowIn = false) := fun both => allowed both.2 both.1
  rw [Tier.opOf?, BinaryOp.ofToken?_token]
  simp only [op.2, dite_true, permitted, if_false]

/-- Only relations depend on the place. -/
theorem Tier.opOf?_anywhere {tier : Tier} (plain : tier ≠ .relational) (allowIn : Bool) (t : Token) :
    tier.opOf? allowIn t = tier.opOf? true t := by
  unfold Tier.opOf?
  cases BinaryOp.ofToken? t with
  | none => rfl
  | some op =>
    by_cases same : op.tier = tier
    · have noIn : op ≠ .isIn := by
        rintro rfl
        exact plain same.symm
      simp only [same, noIn, false_and, if_false]
    · simp only [same, dite_false]

/-- Only relations are spelled with words. -/
theorem Tier.opOf?_keyword {tier : Tier} (plain : tier ≠ .relational) (allowIn : Bool) (w : Word) :
    tier.opOf? allowIn (.keyword w) = none := by
  cases found : tier.opOf? allowIn (.keyword w) with
  | none => rfl
  | some op =>
    have spelled := (Tier.opOf?_eq_some found).1
    obtain ⟨op, rfl⟩ := op
    cases op with
    | instanceOf | isIn => exact absurd rfl plain
    | _ => cases spelled

theorem Punct.mem_all (p : Punct) : p ∈ all := by
  cases p <;> decide

theorem Word.mem_all (w : Word) : w ∈ all := by
  cases w <;> decide

theorem Word.ofSpelling?_spelling (w : Word) : Word.ofSpelling? w.spelling = some w := by
  have table : ∀ w ∈ all, Word.ofSpelling? w.spelling = some w := by decide +kernel
  exact table w w.mem_all

theorem Word.spelling_of_ofSpelling? {text : Bytes} {w : Word} (found : Word.ofSpelling? text = some w) :
    w.spelling = text := by
  simpa using List.find?_some found

theorem Word.read?_spelling (w : Word) : Name.read? w.spelling = some w.spelling := by
  have table : ∀ w ∈ all, Name.read? w.spelling = some w.spelling := by decide +kernel
  exact table w w.mem_all

end EcmaFold
