import Mathlib.Algebra.GroupWithZero.Nat
import OpLint.Analysis.Harvest

/-!
# Effects one after the other

What happened while callbacks ran adds up: the failures by number, the wishes to cancel by
"or", and what was logged by position. So the effects of a harvest are those of its parts in
order, whatever way the parts were put together.
-/

namespace OpLint

namespace Effects

theorem none_andThen (a : Effects) : none.andThen a = a := by
  simp [andThen, none]

theorem andThen_none (a : Effects) : a.andThen none = a := by
  simp [andThen, none]

theorem andThen_assoc (a b c : Effects) : (a.andThen b).andThen c = a.andThen (b.andThen c) := by
  simp only [andThen, Nat.add_assoc, Bool.or_assoc, List.append_assoc]

end Effects

namespace Harvest

variable {α β : Type}

theorem gather_congr {f g : β → Harvest α} {bs : List β} (h : ∀ b ∈ bs, f b = g b) :
    gather f bs = gather g bs := by
  induction bs with
  | nil => rfl
  | cons b bs ih =>
      rw [gather, gather, h b List.mem_cons_self, ih fun c hc => h c (List.mem_cons_of_mem b hc)]

theorem gather_map {γ : Type} (f : β → Harvest α) (g : γ → β) (cs : List γ) :
    gather f (cs.map g) = gather (f ∘ g) cs := by
  induction cs with
  | nil => rfl
  | cons c cs ih => rw [List.map_cons, gather, gather, ih, Function.comp]

theorem faults_gather (f : β → Harvest α) (bs : List β) :
    (gather f bs).effects.faults = (bs.map fun b => (f b).effects.faults).sum := by
  induction bs with
  | nil => rfl
  | cons b bs ih =>
      rw [List.map_cons, List.sum_cons, ← ih]
      rfl

theorem events_gather (f : β → Harvest α) (bs : List β) :
    (gather f bs).effects.events = bs.flatMap fun b => (f b).effects.events := by
  induction bs with
  | nil => rfl
  | cons b bs ih =>
      rw [List.flatMap_cons, ← ih]
      rfl

end Harvest

end OpLint
