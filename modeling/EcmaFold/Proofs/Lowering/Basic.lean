import EcmaFold.Lowering.Tree

/-!
The laws of computations that lower something, and how lists are lowered.
-/

namespace EcmaFold

namespace Lowered

variable {α β : Type}

instance : LawfulMonad Lowered := LawfulMonad.mk' Lowered
  (fun x => by simp [Functor.map, Lowered.bind, Lowered.pure])
  (fun _ _ => rfl)
  (fun x f g => by simp [bind, Lowered.bind])

theorem bind_value (first : Lowered α) (next : α → Lowered β) :
    (first >>= next).value = (next first.value).value := rfl

/-- What is done next depends on the value only. -/
theorem bind_congr_value {x : Lowered α} {f g : α → Lowered β} (same : f x.value = g x.value) :
    x >>= f = x >>= g := by
  change Lowered.bind x f = Lowered.bind x g
  rw [Lowered.bind, Lowered.bind, same]

end Lowered

namespace Tree

/-- A list behind another is lowered from the value of the other. -/
theorem lower_ofList_append {kind : Kind} (list list' : List (Node kind)) (before : Value) :
    (ofList (list ++ list')).lower before = (ofList list).lower before >>= (ofList list').lower := by
  induction list generalizing before with
  | nil => exact (pure_bind before _).symm
  | cons head tail ih =>
    change head.lower before >>= (ofList (tail ++ list')).lower =
      (head.lower before >>= (ofList tail).lower) >>= (ofList list').lower
    rw [bind_assoc]
    exact bind_congr fun v => ih v

end Tree

end EcmaFold
