import Mathlib.Order.Lattice.Nat
import OpLint.Proofs.Forest.Tree

/-!
# Who holds a child while a forest grows

A link is made by the node that is just being added, to nodes that are there and free. So no
forward, own or repeated reference ever makes one, and who claims a child first keeps it: the
parent of a node is the first among the later nodes that name it.

One call of `add` says what happens to each node, `node?_add`, in a forest of any history. The
invariant `FirstLinked` is kept by one call, and by all calls in a row. That nothing else changes
needs no invariant: `Extends` relates a forest to what any further calls make of it.
-/

namespace OpLint

namespace Forest

/-- The later nodes that name a node. -/
def claimants (f : Forest) (child : Nat) : Set Nat :=
  {parent | child < parent ∧ child ∈ f.children parent}

/-- Every node is linked to the first of the later nodes that name it. -/
def FirstLinked (f : Forest) : Prop :=
  ∀ child parent, f.parent? child = some parent ↔ IsLeast (f.claimants child) parent

/-- The nodes of `f` are in `g` with their operations and spans, and linked as they were if they
were linked. -/
def Extends (f g : Forest) : Prop :=
  ∀ i node, f.node? i = some node → ∃ node', g.node? i = some node' ∧
    node'.operation = node.operation ∧ node'.span = node.span ∧
    ∀ parent, node.parent = some parent → node'.parent = some parent

variable {f g h : Forest} {ops : List (Operation Ref × Span)}

/-! ## One call -/

theorem node?_eq_none_iff {i : Nat} : f.node? i = none ↔ f.size ≤ i :=
  Array.getElem?_eq_none_iff

theorem node?_claim (f : Forest) (parent child i : Nat) :
    (f.claim parent child).node? i = (f.node? i).map fun node =>
      { node with parent := node.parent.or (if i = child then some parent else none) } := by
  rw [claim, node?, Array.getElem?_modify, node?]
  by_cases hi : i = child
  · rw [if_pos hi.symm]
    simp only [if_pos hi]
    congr 1
    funext node
    cases node.parent <;> rfl
  · rw [if_neg (Ne.symm hi)]
    simp [hi]

theorem node?_foldl_claim (f : Forest) (parent : Nat) (children : List Nat) (i : Nat) :
    (children.foldl (claim parent) f).node? i = (f.node? i).map fun node =>
      { node with parent := node.parent.or (if i ∈ children then some parent else none) } := by
  induction children generalizing f with
  | nil => simp
  | cons child children ih =>
      rw [List.foldl_cons, ih, node?_claim, Option.map_map]
      congr 1
      funext node
      by_cases hi : i = child <;> simp [hi]

theorem size_foldl_claim (f : Forest) (parent : Nat) (children : List Nat) :
    (children.foldl (claim parent) f).size = f.size := by
  induction children generalizing f with
  | nil => rfl
  | cons child children ih =>
      rw [List.foldl_cons, ih, claim, size, Array.size_modify, size]

/-- The new node comes last and is linked to nobody. It becomes the parent of the nodes that it
names and that have none, and everything else stays. -/
theorem node?_add (f : Forest) (op : Operation Ref) (span : Span) (i : Nat) :
    (f.add op span).node? i =
      if i = f.size then some ⟨op, span, none⟩
      else (f.node? i).map fun node =>
        { node with parent := node.parent.or (if i ∈ op.children then some f.size else none) } := by
  rw [add, push, node?, Array.getElem?_push, ← node?_foldl_claim]
  exact if_congr (by rw [← size, size_foldl_claim]) rfl rfl

theorem parent?_add (f : Forest) (op : Operation Ref) (span : Span) {i : Nat} (hi : i < f.size) :
    (f.add op span).parent? i =
      (f.parent? i).or (if i ∈ op.children then some f.size else none) := by
  rw [parent?, node?_add, if_neg (Nat.ne_of_lt hi), parent?]
  cases hnode : f.node? i with
  | none => exact absurd (node?_eq_none_iff.1 hnode) (Nat.not_le.2 hi)
  | some node => rfl

theorem parent?_add_of_size_le (f : Forest) (op : Operation Ref) (span : Span) {i : Nat}
    (hi : f.size ≤ i) : (f.add op span).parent? i = none := by
  rw [parent?, node?_add, node?_eq_none_iff.2 hi]
  split <;> rfl

theorem children_add (f : Forest) (op : Operation Ref) (span : Span) (i : Nat) :
    (f.add op span).children i = if i = f.size then op.children else f.children i := by
  rw [children, node?_add, children]
  split
  · rfl
  · cases f.node? i <;> rfl

/-! ## Who may hold a child -/

theorem lt_size_of_mem_claimants {child parent : Nat} (h : parent ∈ f.claimants child) :
    parent < f.size :=
  lt_size_of_mem_children h.2

theorem mem_claimants_add {op : Operation Ref} {span : Span} {child parent : Nat} :
    parent ∈ (f.add op span).claimants child ↔
      parent ∈ f.claimants child ∨
        parent = f.size ∧ child < f.size ∧ child ∈ op.children := by
  simp only [claimants, Set.mem_ofPred_eq, children_add]
  by_cases hparent : parent = f.size
  · have hnone : child ∉ f.children f.size := fun h =>
      Nat.lt_irrefl _ (lt_size_of_mem_children h)
    simp [hparent, hnone]
  · simp [hparent]

/-! ## The invariant -/

theorem firstLinked_empty : empty.FirstLinked := by
  intro child parent
  refine iff_of_false nofun fun hleast => ?_
  exact Nat.not_lt_zero _ (lt_size_of_mem_claimants hleast.1)

namespace FirstLinked

/-- A node without a parent is named by no later node. -/
theorem claimants_eq_empty_iff (hf : f.FirstLinked) {child : Nat} :
    f.claimants child = ∅ ↔ f.parent? child = none := by
  constructor
  · intro hempty
    refine Option.eq_none_iff_forall_ne_some.2 fun parent hlink => ?_
    have hleast := (hf child parent).1 hlink
    rw [hempty] at hleast
    exact hleast.1
  · intro hlink
    refine Set.not_nonempty_iff_eq_empty.1 fun hsome => ?_
    have hleast : IsLeast (f.claimants child) (sInf (f.claimants child)) :=
      ⟨Nat.sInf_mem hsome, fun _ => Nat.sInf_le⟩
    rw [(hf child _).2 hleast] at hlink
    cases hlink

theorem add (hf : f.FirstLinked) (op : Operation Ref) (span : Span) :
    (f.add op span).FirstLinked := by
  intro child parent
  rcases Nat.lt_or_ge child f.size with hchild | hchild
  · rw [parent?_add f op span hchild]
    cases hlink : f.parent? child with
    | some first =>
        -- The new node comes after the one that holds the child.
        have hleast : IsLeast (f.claimants child) first := (hf child first).1 hlink
        have hleast' : IsLeast ((f.add op span).claimants child) first := by
          refine ⟨mem_claimants_add.2 (Or.inl hleast.1), fun q hq => ?_⟩
          rcases mem_claimants_add.1 hq with hq | ⟨rfl, -, -⟩
          · exact hleast.2 hq
          · exact Nat.le_of_lt (lt_size_of_mem_claimants hleast.1)
        rw [Option.some_or, Option.some_inj]
        exact ⟨fun heq => heq ▸ hleast', fun h => hleast'.unique h⟩
    | none =>
        have hempty := hf.claimants_eq_empty_iff.2 hlink
        have hnew (q : Nat) : q ∈ (f.add op span).claimants child ↔
            q = f.size ∧ child ∈ op.children := by
          rw [mem_claimants_add, hempty]
          simp [hchild]
        rw [Option.none_or]
        split
        · next hmem =>
            have hset : (f.add op span).claimants child = {f.size} := by
              ext q
              simp [hnew, hmem]
            rw [hset, Option.some_inj]
            exact ⟨fun heq => heq ▸ isLeast_singleton, fun h => isLeast_singleton.unique h⟩
        · next hmem =>
            refine iff_of_false nofun fun hleast => hmem ((hnew parent).1 hleast.1).2
  · -- The new node is linked to nobody, and there is nothing behind it.
    rw [parent?_add_of_size_le f op span hchild]
    refine iff_of_false nofun fun hleast => ?_
    rcases mem_claimants_add.1 hleast.1 with hmem | ⟨-, hlt, -⟩
    · have := lt_size_of_mem_claimants hmem
      have := hmem.1
      omega
    · omega

theorem foldl_add (hf : f.FirstLinked) (more : List (Operation Ref × Span)) :
    (more.foldl (fun f p => f.add p.1 p.2) f).FirstLinked := by
  induction more generalizing f with
  | nil => exact hf
  | cons p more ih => exact ih (hf.add p.1 p.2)

end FirstLinked

theorem firstLinked_build (ops : List (Operation Ref × Span)) : (build ops).FirstLinked :=
  firstLinked_empty.foldl_add ops

/-! ## What stays -/

namespace Extends

theorem refl (f : Forest) : f.Extends f :=
  fun _ node hnode => ⟨node, hnode, rfl, rfl, fun _ => id⟩

theorem trans (hfg : f.Extends g) (hgh : g.Extends h) : f.Extends h := by
  intro i node hnode
  obtain ⟨node', hnode', hop', hspan', hlink'⟩ := hfg i node hnode
  obtain ⟨node'', hnode'', hop, hspan, hlink⟩ := hgh i node' hnode'
  exact ⟨node'', hnode'', hop.trans hop', hspan.trans hspan',
    fun parent hparent => hlink parent (hlink' parent hparent)⟩

theorem parent? (hfg : f.Extends g) {child parent : Nat} (hlink : f.parent? child = some parent) :
    g.parent? child = some parent := by
  obtain ⟨node, hnode, hparent⟩ := Option.bind_eq_some_iff.1 hlink
  obtain ⟨node', hnode', -, -, hkept⟩ := hfg child node hnode
  exact Option.bind_eq_some_iff.2 ⟨node', hnode', hkept parent hparent⟩

theorem node?_eq (hfg : f.Extends g) {i : Nat} (hi : i < f.size) :
    (g.node? i).map (fun node => (node.operation, node.span)) =
      (f.node? i).map fun node => (node.operation, node.span) := by
  cases hnode : f.node? i with
  | none => exact absurd (node?_eq_none_iff.1 hnode) (Nat.not_le.2 hi)
  | some node =>
      obtain ⟨node', hnode', hop, hspan, -⟩ := hfg i node hnode
      rw [hnode', Option.map_some, Option.map_some, hop, hspan]

end Extends

theorem extends_add (f : Forest) (op : Operation Ref) (span : Span) :
    f.Extends (f.add op span) := by
  intro i node hnode
  have hne : i ≠ f.size := by
    rintro rfl
    rw [node?_eq_none_iff.2 (Nat.le_refl _)] at hnode
    cases hnode
  rw [node?_add, if_neg hne, hnode]
  exact ⟨_, rfl, rfl, rfl, fun parent hparent => by simp only [hparent, Option.some_or]⟩

theorem extends_foldl_add (f : Forest) (more : List (Operation Ref × Span)) :
    f.Extends (more.foldl (fun f p => f.add p.1 p.2) f) := by
  induction more generalizing f with
  | nil => exact .refl f
  | cons p more ih => exact (extends_add f p.1 p.2).trans (ih _)

/-- In a forest that was built from any operations, the parent of a node is the first among the
later nodes that name it, and a node has none if there is no such node. Further calls leave a
link as it is, and every node with its operation and its span. -/
theorem links_build (ops : List (Operation Ref × Span)) :
    let f := build ops
    (∀ child parent, f.parent? child = some parent ↔
      IsLeast {p | child < p ∧ child ∈ f.children p} parent) ∧
    (∀ child, f.parent? child = none ↔ ∀ p, child < p → child ∉ f.children p) ∧
    ∀ more : List (Operation Ref × Span),
      let g := more.foldl (fun f p => f.add p.1 p.2) f
      (∀ child parent, f.parent? child = some parent → g.parent? child = some parent) ∧
      ∀ i < f.size, (g.node? i).map (fun node => (node.operation, node.span)) =
        (f.node? i).map fun node => (node.operation, node.span) := by
  intro f
  have hfirst : f.FirstLinked := firstLinked_build ops
  refine ⟨hfirst, fun child => ?_, fun more => ?_⟩
  · rw [← hfirst.claimants_eq_empty_iff, Set.eq_empty_iff_forall_notMem]
    simp only [claimants, Set.mem_ofPred_eq, not_and]
  · have hkept := extends_foldl_add f more
    exact ⟨fun _ _ => hkept.parent?, fun _ => hkept.node?_eq⟩

/-- A node that names an earlier one twice, itself, a later one and one that never comes; then two
more that name nodes again, and another one after the fact. -/
theorem links_build_tangled :
    let ops : List (Operation Ref × Span) :=
      [(.literal "", .empty), (.block [⟨0⟩, ⟨0⟩, ⟨1⟩, ⟨2⟩, ⟨9⟩], .empty), (.returns ⟨0⟩, .empty),
        (.throws ⟨2⟩, .empty)]
    let f := build ops
    let g := f.add (.block [⟨0⟩, ⟨3⟩]) .empty
    IsLeast {p | 0 < p ∧ 0 ∈ f.children p} 1 ∧ IsLeast {p | 2 < p ∧ 2 ∈ f.children p} 3 ∧
      (∀ p, 1 < p → 1 ∉ f.children p) ∧
      (f.parent? 0 = some 1 ∧ g.parent? 0 = some 1) ∧
      3 < f.size ∧ f.parent? 3 = none ∧ g.parent? 3 = some 4 ∧
      (g.node? 3).map (fun node => (node.operation, node.span)) = some (.throws ⟨2⟩, .empty) := by
  intro ops f g
  have hzero : f.parent? 0 = some 1 := by decide
  have htwo : f.parent? 2 = some 3 := by decide
  have hone : f.parent? 1 = none := by decide
  have hthree : 3 < f.size := by decide
  obtain ⟨hleast, hnone, hlater⟩ := links_build ops
  obtain ⟨hlinks, hnodes⟩ := hlater [(.block [⟨0⟩, ⟨3⟩], .empty)]
  exact ⟨(hleast 0 1).1 hzero, (hleast 2 3).1 htwo, (hnone 1).1 hone, ⟨hzero, hlinks 0 1 hzero⟩,
    hthree, by decide, by decide, hnodes 3 hthree⟩

end Forest

end OpLint
