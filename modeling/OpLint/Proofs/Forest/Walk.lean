import OpLint.Proofs.Forest.Tree

/-!
# Walking a forest that nobody checked

A forest that was built with `add` may name nodes that are not there, nodes that come later,
and nodes that somebody else has claimed. Its links are sound all the same: a link leads from
a node to a later one, which names it. Nothing else is needed to walk about in it. Upward the
places ascend; and downward a walk from one node comes by another exactly when the walk up
from there comes by the first.

What the links do not say is how often a node names its child. So the walk downward passes a
node as often as the links above it are named, multiplied: once, unless some node names a
child twice that it was the first to claim.

Both walks are made call by call, and a call looks neither at the order of the places nor at
how many calls there were. `Yields` says what such calls come to, and that they come to an end.
-/

namespace OpLint

/-- An iterator in state `s` gives the items `as`, one with each call, and then ends. -/
inductive Yields {σ α : Type} (next : σ → Option (α × σ)) : σ → List α → Prop
  | done {s : σ} : next s = none → Yields next s []
  | item {s t : σ} {a : α} {as : List α} :
    next s = some (a, t) → Yields next t as → Yields next s (a :: as)

theorem Yields.unique {σ α : Type} {next : σ → Option (α × σ)} {s : σ} {as bs : List α}
    (has : Yields next s as) (hbs : Yields next s bs) : as = bs := by
  induction has generalizing bs with
  | done hs =>
      cases hbs with
      | done => rfl
      | item hs' =>
          rw [hs] at hs'
          cases hs'
  | item hs _ ih =>
      cases hbs with
      | done hs' =>
          rw [hs] at hs'
          cases hs'
      | item hs' hbs =>
          rw [hs] at hs'
          cases hs'
          rw [ih hbs]

theorem Yields.iff_eq {σ α : Type} {next : σ → Option (α × σ)} {s : σ} {as bs : List α}
    (h : Yields next s as) : Yields next s bs ↔ bs = as :=
  ⟨fun h' => h'.unique h, fun heq => heq ▸ h⟩

namespace Forest

/-- A call of the walk upward, which remembers where it is. -/
def climb (f : Forest) (i : Nat) : Option (Nat × Nat) :=
  ((f.parent? i).filter (· < f.size)).map fun parent => (parent, parent)

/-- A call of the walk downward, which keeps a stack of what is still to come. Places without
a node are passed over. -/
def descend (f : Forest) : List Nat → Option (Nat × List Nat)
  | [] => none
  | i :: stack => if i < f.size then some (i, f.followed i ++ stack) else f.descend stack

/-! ## Links -/

/-- Every link leads to a later node, which names the child. -/
def Ascends (f : Forest) : Prop :=
  ∀ child parent, f.parent? child = some parent → child < parent ∧ child ∈ f.children parent

variable {f : Forest} {ops : List (Operation Ref × Span)}

theorem children_build (ops : List (Operation Ref × Span)) (i : Nat) :
    (build ops).children i = (ops[i]?).elim [] fun p => p.1.children := by
  rw [children, build_eq, node?_linkedBy]
  cases ops[i]? <;> rfl

/-- Adding nodes keeps the links sound, whatever the nodes name. -/
theorem ascends_build (ops : List (Operation Ref × Span)) : (build ops).Ascends := by
  intro child parent hlink
  have hchild : child < ops.length := by
    by_contra hsize
    rw [build_eq, parent?, node?_linkedBy, List.getElem?_eq_none (Nat.not_lt.1 hsize)] at hlink
    cases hlink
  rw [build_eq, parent?_linkedBy hchild] at hlink
  obtain ⟨hclaim, hprecedes⟩ := List.mem_filter.1 (Claim.mem_of_holder? hlink)
  obtain ⟨op, span, hop, hmem⟩ := Claim.mem_ofOperations_iff.1 hclaim
  refine ⟨of_decide_eq_true hprecedes, ?_⟩
  rw [children_build, hop]
  exact hmem

theorem Ascends.parent_lt_size (h : f.Ascends) {child parent : Nat}
    (hlink : f.parent? child = some parent) : parent < f.size :=
  lt_size_of_mem_children (h child parent hlink).2

/-- What passes from parents to children holds everywhere. -/
theorem Ascends.induction (h : f.Ascends) {P : Nat → Prop}
    (step : ∀ i, (∀ parent, f.parent? i = some parent → P parent) → P i) (i : Nat) : P i := by
  refine step i fun parent hlink => ?_
  have hlt := (h i parent hlink).1
  have hsize := h.parent_lt_size hlink
  exact h.induction step parent
termination_by f.size - i

/-! ## Upward -/

theorem Ascends.ancestors_eq (h : f.Ascends) (i : Nat) :
    f.ancestors i = (f.parent? i).elim [] fun parent => parent :: f.ancestors parent := by
  rw [ancestors]
  cases hlink : f.parent? i with
  | none => rfl
  | some parent => exact if_pos ⟨(h i parent hlink).1, h.parent_lt_size hlink⟩

theorem Ascends.yields_ancestors (h : f.Ascends) (i : Nat) : Yields f.climb i (f.ancestors i) := by
  induction i using h.induction with
  | step i ih =>
      rw [h.ancestors_eq]
      cases hlink : f.parent? i with
      | none =>
          refine .done ?_
          rw [climb, hlink]
          rfl
      | some parent =>
          refine .item ?_ (ih parent hlink)
          rw [climb, hlink, Option.filter_some, if_pos (decide_eq_true (h.parent_lt_size hlink))]
          rfl

theorem Ascends.pairwise_ancestors (h : f.Ascends) (i : Nat) :
    (i :: f.ancestors i).Pairwise (· < ·) := by
  induction i using h.induction with
  | step i ih =>
      rw [h.ancestors_eq]
      cases hlink : f.parent? i with
      | none => exact List.pairwise_singleton _ _
      | some parent =>
          have hlt := (h i parent hlink).1
          have habove := ih parent hlink
          refine List.pairwise_cons.2 ⟨fun j hj => ?_, habove⟩
          rcases List.mem_cons.1 hj with rfl | hj
          · exact hlt
          · exact Nat.lt_trans hlt (List.rel_of_pairwise_cons habove hj)

/-! ## Downward -/

theorem count_flatMap_eq_count {g : Nat → List Nat} {is : List Nat} {c : Nat}
    (h : ∀ i ∈ is, (g i).count c = [i].count c) : (is.flatMap g).count c = is.count c := by
  induction is with
  | nil => rfl
  | cons i is ih =>
      rw [List.flatMap_cons, List.count_append, h i List.mem_cons_self,
        ih fun j hj => h j (List.mem_cons_of_mem i hj), ← List.count_append]
      rfl

theorem count_flatMap_eq_mul {g : Nat → List Nat} {is : List Nat} {c d m : Nat}
    (h : ∀ i ∈ is, (g i).count c = m * (g i).count d) :
    (is.flatMap g).count c = m * (is.flatMap g).count d := by
  induction is with
  | nil => rfl
  | cons i is ih =>
      rw [List.flatMap_cons, List.count_append, List.count_append, h i List.mem_cons_self,
        ih fun j hj => h j (List.mem_cons_of_mem i hj), Nat.mul_add]

theorem mem_followed {i child : Nat} :
    child ∈ f.followed i ↔ child ∈ f.children i ∧ child < i ∧ f.parent? child = some i := by
  simp [followed]

theorem yields_walk {stack : List Nat} (h : ∀ i ∈ stack, i < f.size) :
    Yields f.descend stack (f.walk stack) := by
  fun_induction walk f stack with
  | case1 => exact .done rfl
  | case2 i stack ih =>
      have hi := h i List.mem_cons_self
      refine .item (if_pos hi) (ih fun j hj => ?_)
      rcases List.mem_append.1 hj with hj | hj
      · exact Nat.lt_trans (lt_of_mem_followed hj) hi
      · exact h j (List.mem_cons_of_mem i hj)

theorem yields_descendants {root : Ref} {r : Nat} (hroot : root.position? = some r)
    (hr : r < f.size) : Yields f.descend [r] (f.descendants root) := by
  have hfind : f.find? root = some r := by
    rw [find?, hroot, Option.filter_some, if_pos (decide_eq_true hr)]
  rw [descendants, hfind, Option.toList_some]
  exact yields_walk fun i hi => List.mem_singleton.1 hi ▸ hr

theorem descendants_eq_flatMap (f : Forest) (root : Ref) :
    f.descendants root = (f.find? root).toList.flatMap f.preorder := by
  rw [descendants, walk_eq]

theorem le_of_mem_preorder {i j : Nat} (h : j ∈ f.preorder i) : j ≤ i := by
  induction i using Nat.strongRecOn with
  | ind i ih =>
      rw [preorder_eq] at h
      rcases List.mem_cons.1 h with rfl | h
      · exact Nat.le_refl _
      · obtain ⟨child, hchild, h⟩ := List.mem_flatMap.1 h
        have hlt := lt_of_mem_followed hchild
        have hle := ih child hlt h
        omega

theorem count_preorder_self (f : Forest) (i : Nat) : (f.preorder i).count i = 1 := by
  have hbelow : i ∉ (f.followed i).flatMap f.preorder := by
    intro h
    obtain ⟨child, hchild, h⟩ := List.mem_flatMap.1 h
    exact absurd (le_of_mem_preorder h) (Nat.not_le.2 (lt_of_mem_followed hchild))
  rw [preorder_eq, List.count_cons_self, List.count_eq_zero.2 hbelow]

/-- A walk downward passes a node as often as it passes the node's parent, times the number of
times that the parent goes on to it. -/
theorem count_preorder (f : Forest) (i c : Nat) :
    (f.preorder i).count c =
      if c = i then 1
      else (f.parent? c).elim 0 fun parent =>
        (f.followed parent).count c * (f.preorder i).count parent := by
  induction i using Nat.strongRecOn with
  | ind i ih =>
      by_cases hc : c = i
      · rw [if_pos hc, hc, count_preorder_self]
      rw [if_neg hc, preorder_eq, List.count_cons_of_ne (Ne.symm hc)]
      have hchild (child : Nat) (hmem : child ∈ f.followed i) :=
        ih child (lt_of_mem_followed hmem)
      have hlinked (child : Nat) (hmem : child ∈ f.followed i) : f.parent? child = some i :=
        (mem_followed.1 hmem).2.2
      cases hlink : f.parent? c with
      | none =>
          -- No link leads from `c` to a node, so the walk does not come to it.
          refine List.count_eq_zero.2 fun hmem => ?_
          obtain ⟨child, hfollowed, hmem⟩ := List.mem_flatMap.1 hmem
          have hne : c ≠ child := by
            rintro rfl
            rw [hlinked c hfollowed] at hlink
            cases hlink
          have hcount := hchild child hfollowed
          rw [if_neg hne, hlink] at hcount
          exact List.count_eq_zero.1 hcount hmem
      | some parent =>
          rw [Option.elim_some, ← preorder_eq]
          by_cases hparent : parent = i
          · -- `c` is a child of `i`, and `i` itself does not come again.
            subst hparent
            rw [count_preorder_self, Nat.mul_one]
            refine count_flatMap_eq_count fun child hmem => ?_
            have hnone : (f.preorder child).count parent = 0 :=
              List.count_eq_zero.2 fun h =>
                absurd (le_of_mem_preorder h) (Nat.not_le.2 (lt_of_mem_followed hmem))
            rw [hchild child hmem, hlink, Option.elim_some, hnone, Nat.mul_zero]
            by_cases heq : c = child
            · rw [if_pos heq, heq, List.count_singleton_self]
            · rw [if_neg heq, List.count_eq_zero.2 fun h => heq (List.mem_singleton.1 h)]
          · rw [preorder_eq, List.count_cons_of_ne (Ne.symm hparent)]
            refine count_flatMap_eq_mul fun child hmem => ?_
            have hne : c ≠ child := by
              rintro rfl
              rw [hlinked c hmem] at hlink
              exact hparent (Option.some.inj hlink).symm
            rw [hchild child hmem, if_neg hne, hlink, Option.elim_some]

theorem count_descendants (f : Forest) (root : Ref) (c : Nat) :
    (f.descendants root).count c =
      if f.find? root = some c then 1
      else (f.parent? c).elim 0 fun parent =>
        (f.followed parent).count c * (f.descendants root).count parent := by
  rw [descendants_eq_flatMap]
  cases f.find? root with
  | none => cases f.parent? c <;> simp
  | some i =>
      rw [Option.toList_some, List.flatMap_singleton, count_preorder]
      simp only [Option.some.injEq, eq_comm]

namespace Ascends

variable (h : f.Ascends)

include h

theorem count_followed {child parent : Nat} (hlink : f.parent? child = some parent) :
    (f.followed parent).count child = (f.children parent).count child :=
  List.count_filter (by simpa [hlink] using (h child parent hlink).1)

/-- A node that is not the root of a walk is passed if its parent is. -/
theorem mem_preorder_iff_of_ne {i j : Nat} (hne : j ≠ i) :
    j ∈ f.preorder i ↔ ∃ parent, f.parent? j = some parent ∧ parent ∈ f.preorder i := by
  rw [← List.count_pos_iff, count_preorder, if_neg hne]
  cases hlink : f.parent? j with
  | none => simp
  | some parent =>
      have hchild := List.count_pos_iff.2 (h j parent hlink).2
      rw [Option.elim_some, h.count_followed hlink, Nat.mul_pos_iff_of_pos_left hchild,
        List.count_pos_iff]
      simp

theorem mem_preorder_iff {i j : Nat} : j ∈ f.preorder i ↔ j = i ∨ i ∈ f.ancestors j := by
  induction j using h.induction with
  | step j ih =>
      rw [h.ancestors_eq]
      by_cases hne : j = i
      · rw [hne, preorder_eq]
        exact iff_of_true List.mem_cons_self (Or.inl rfl)
      · rw [h.mem_preorder_iff_of_ne hne]
        cases hlink : f.parent? j with
        | none => simp [hne]
        | some parent =>
            rw [Option.elim_some, List.mem_cons, eq_comm (a := i), ← ih parent hlink]
            simp [hne]

/-- A walk repeats nothing if no node on it names a child twice that is linked to it. -/
theorem nodup_preorder_iff {i : Nat} :
    (f.preorder i).Nodup ↔ ∀ j ∈ f.preorder i, ∀ child, f.parent? child = some j →
      (f.children j).count child ≤ 1 := by
  constructor
  · intro hnodup j hj child hlink
    have hne : child ≠ i := by
      have := (h child j hlink).1
      have := le_of_mem_preorder hj
      omega
    have hcount := List.nodup_iff_count_le_one.1 hnodup child
    rwa [count_preorder, if_neg hne, hlink, Option.elim_some, h.count_followed hlink,
      List.count_eq_one_of_mem hnodup hj, Nat.mul_one] at hcount
  · refine fun honce => List.nodup_iff_count_le_one.2 fun j => ?_
    induction j using h.induction with
    | step j ih =>
        rw [count_preorder]
        split
        · exact Nat.le_refl 1
        · cases hlink : f.parent? j with
          | none => exact Nat.zero_le 1
          | some parent =>
              rw [Option.elim_some, h.count_followed hlink]
              by_cases hparent : parent ∈ f.preorder i
              · exact Nat.mul_le_mul (honce parent hparent j hlink) (ih parent hlink)
              · rw [List.count_eq_zero.2 hparent, Nat.mul_zero]
                exact Nat.zero_le 1

theorem nodup_descendants_iff {root : Ref} :
    (f.descendants root).Nodup ↔ ∀ i ∈ f.descendants root, ∀ child, f.parent? child = some i →
      (f.children i).count child ≤ 1 := by
  rw [descendants_eq_flatMap]
  cases f.find? root with
  | none => simp
  | some i =>
      rw [Option.toList_some, List.flatMap_singleton]
      exact h.nodup_preorder_iff

end Ascends

/-! ## Forests that were built -/

/-- How often a walk downward passes a node, in a forest that was built from any operations: the
root once, and another node as often as its parent, times the number of times that the parent
names it. So nothing is repeated exactly if no node on the walk names a child twice that is
linked to it. Nodes that name themselves, later nodes, absent ones or a child of another node
never make a difference. -/
theorem count_descendants_build (ops : List (Operation Ref × Span)) (root : Ref) :
    let f := build ops
    let places := f.descendants root
    (∀ c, places.count c =
      if f.find? root = some c then 1
      else (f.parent? c).elim 0 fun parent =>
        (f.children parent).count c * places.count parent) ∧
    (places.Nodup ↔ ∀ i ∈ places, ∀ child, f.parent? child = some i →
      (f.children i).count child ≤ 1) ∧
    ((∀ p ∈ ops, p.1.children.Nodup) → places.Nodup) := by
  intro f places
  have hf : f.Ascends := ascends_build ops
  refine ⟨fun c => ?_, hf.nodup_descendants_iff, fun hops => ?_⟩
  · rw [show places.count c = _ from f.count_descendants root c]
    cases hlink : f.parent? c with
    | none => rfl
    | some parent => rw [Option.elim_some, Option.elim_some, hf.count_followed hlink]
  · refine hf.nodup_descendants_iff.2 fun i _ child _ => ?_
    rw [show f.children i = _ from children_build ops i]
    cases hop : ops[i]? with
    | none => exact Nat.zero_le 1
    | some p => exact List.nodup_iff_count_le_one.1 (hops p (List.mem_of_getElem? hop)) child

/-- Each of two nodes names the one before it twice, so the literal is passed four times. -/
theorem count_descendants_build_doubled :
    ((build [(.literal "1", .empty), (.block [⟨0⟩, ⟨0⟩], .empty),
      (.block [⟨1⟩, ⟨1⟩], .empty)]).descendants ⟨2⟩).count 0 = 4 := by
  obtain ⟨hcount, -⟩ := count_descendants_build
    [(.literal "1", .empty), (.block [⟨0⟩, ⟨0⟩], .empty), (.block [⟨1⟩, ⟨1⟩], .empty)] ⟨2⟩
  calc List.count 0 _ = 2 * List.count 1 _ := hcount 0
    _ = 2 * (2 * List.count 2 _) := congrArg (2 * ·) (hcount 1)
    _ = 2 * (2 * 1) := congrArg (fun passed => 2 * (2 * passed)) (hcount 2)

/-- A child that its node names twice is visited twice. -/
theorem not_nodup_descendants_repeated :
    ¬ ((build [(.literal "1", .empty), (.block [⟨0⟩, ⟨0⟩], .empty)]).descendants ⟨1⟩).Nodup := by
  have hroot : (Ref.mk 1).position? = some 1 := rfl
  rw [descendants_eq hroot (by decide), (ascends_build _).nodup_preorder_iff]
  intro h
  exact absurd (h 1 (by rw [preorder_eq]; exact List.mem_cons_self) 0 rfl) (by decide)

/-- In a forest that was built from any operations both walks come to an end. The walk up
ascends, and the walk down from one node passes another exactly when they are the same or the
walk up from there passes the first. -/
theorem yields_walks_build (ops : List (Operation Ref × Span)) (root : Ref) (r n : Nat)
    (hroot : root.position? = some r) (hr : r < ops.length) :
    let f := build ops
    (∀ places, Yields f.climb n places ↔ places = f.ancestors n) ∧
    (∀ places, Yields f.descend [r] places ↔ places = f.descendants root) ∧
    (n :: f.ancestors n).Pairwise (· < ·) ∧
    (n ∈ f.descendants root ↔ n = r ∨ r ∈ f.ancestors n) := by
  intro f
  have hf : f.Ascends := ascends_build ops
  have hsize : r < f.size := by
    rw [show f.size = _ from size_build ops]
    exact hr
  refine ⟨fun _ => (hf.yields_ancestors n).iff_eq, fun _ => (yields_descendants hroot hsize).iff_eq,
    hf.pairwise_ancestors n, ?_⟩
  rw [descendants_eq hroot hsize]
  exact hf.mem_preorder_iff

/-- Nodes that name themselves, later nodes, absent ones, each other's children and a child
twice. -/
theorem yields_walks_build_tangled :
    let f := build [(.block [⟨1⟩, ⟨0⟩], .empty), (.literal "1", .empty),
      (.block [⟨1⟩, ⟨1⟩, ⟨0⟩], .empty), (.block [⟨2⟩, ⟨1⟩, ⟨9⟩], .empty)]
    Yields f.descend [3] (f.descendants ⟨3⟩) ∧ 0 ∈ f.descendants ⟨3⟩ := by
  intro f
  obtain ⟨-, hdown, -, hmem⟩ := yields_walks_build
    [(.block [⟨1⟩, ⟨0⟩], .empty), (.literal "1", .empty),
      (.block [⟨1⟩, ⟨1⟩, ⟨0⟩], .empty), (.block [⟨2⟩, ⟨1⟩, ⟨9⟩], .empty)] ⟨3⟩ 3 0 rfl (by decide)
  have habove : f.ancestors 0 = 2 :: 3 :: f.ancestors 3 := by
    have hf : f.Ascends := ascends_build _
    have hlink : f.parent? 0 = some 2 := rfl
    have hlink' : f.parent? 2 = some 3 := rfl
    rw [hf.ancestors_eq 0, hlink, Option.elim_some, hf.ancestors_eq 2, hlink', Option.elim_some]
  refine ⟨(hdown _).2 rfl, hmem.2 (Or.inr ?_)⟩
  show 3 ∈ f.ancestors 0
  rw [habove]
  simp

end Forest

end OpLint
