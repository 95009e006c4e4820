import Mathlib.Data.List.Dedup
import Mathlib.Data.List.Sort

/-!
# Lists in ascending order

A comparison sorts a list into ascending order. If it tells different things apart, the strictly
ascending list of some things is determined by which things these are, and it can always be made.
-/

namespace OpLint

variable {α β : Type}

theorem pairwise_mergeSort (cmp : α → α → Ordering) [Std.TransCmp cmp] (key : β → α)
    (bs : List β) :
    (bs.mergeSort fun b c => (cmp (key b) (key c)).isLE).Pairwise
      fun b c => (cmp (key b) (key c)).isLE := by
  refine List.pairwise_mergeSort (fun b c d hbc hcd => ?_) (fun b c => ?_) bs
  · exact Std.TransCmp.isLE_trans hbc hcd
  · have hswap : cmp (key c) (key b) = (cmp (key b) (key c)).swap := Std.OrientedCmp.eq_swap
    rw [hswap]
    cases cmp (key b) (key c) <;> rfl

/-- There is one way only to list things in strictly ascending order. -/
theorem eq_of_mem_iff_of_pairwise_lt {cmp : α → α → Ordering} [Std.TransCmp cmp] {as bs : List α}
    (has : as.Pairwise fun a b => cmp a b = .lt) (hbs : bs.Pairwise fun a b => cmp a b = .lt)
    (h : ∀ a, a ∈ as ↔ a ∈ bs) : as = bs := by
  have : Std.Irrefl fun a b => cmp a b = .lt := ⟨fun a hlt => by
    have heq : cmp a a = .eq := Std.ReflCmp.compare_self
    rw [heq] at hlt
    cases hlt⟩
  have : Std.Antisymm fun a b => cmp a b = .lt :=
    ⟨fun a b hab hba => absurd hba (Std.OrientedCmp.not_lt_of_lt hab)⟩
  exact has.eq_of_mem_iff hbs h

theorem exists_pairwise_lt (cmp : α → α → Ordering) [Std.TransCmp cmp] [Std.LawfulEqCmp cmp]
    [DecidableEq α] (as : List α) :
    ∃ bs : List α, bs.Pairwise (fun a b => cmp a b = .lt) ∧ ∀ a, a ∈ bs ↔ a ∈ as := by
  have hperm := List.mergeSort_perm as.dedup fun a b => (cmp a b).isLE
  have hsorted := (pairwise_mergeSort cmp id as.dedup).and (hperm.nodup_iff.2 as.nodup_dedup)
  refine ⟨_, hsorted.imp ?_, fun a => hperm.mem_iff.trans List.mem_dedup⟩
  rintro a b ⟨hle, hne⟩
  exact (Ordering.isLE_iff_eq_lt_or_eq_eq.1 hle).resolve_right
    (mt Std.LawfulEqCmp.eq_of_compare hne)

end OpLint
