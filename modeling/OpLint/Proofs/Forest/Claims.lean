import Mathlib.Data.List.Nodup
import OpLint.Forest.Basic
import OpLint.Proofs.Verdict

/-!
# Claims to children

Every child that an operation names is a claim, and a forest is decided by its list
of claims: the operations in their order, and for each of them its children in
theirs. The links of a forest say who claimed a child first, so the state that
`ofOperations` carries along is a function of the claims made so far. From this it
follows what it answers: the first claim at fault, or the forest with every link in
place.
-/

namespace OpLint

/-- A node naming another one as its child. -/
structure Claim where
  parent : Nat
  child : Nat
  deriving DecidableEq, Repr

/-- The claims that an operation makes at its place. -/
def Operation.claims (op : Operation Ref) (place : Nat) : List Claim :=
  op.children.map (Claim.mk place)

namespace Claim

/-- All claims that a list of operations makes. -/
def ofOperations (ops : List (Operation Ref × Span)) : List Claim :=
  ops.zipIdx.flatMap fun ((op, _), place) => op.claims place

/-- Who claimed a child first. -/
def holder? (claims : List Claim) (child : Nat) : Option Nat :=
  (claims.find? (·.child = child)).map Claim.parent

/-- What is wrong with a claim in a forest of the given size, after the claims before
it: the child is missing, it comes too late, or it is taken. -/
def fault? (size : Nat) (before : List Claim) (c : Claim) : Option Violation :=
  if size ≤ c.child then some (.outOfRange c.child size)
  else if c.parent ≤ c.child then some (.childNotBeforeParent c.parent c.child)
  else (holder? before c.child).map fun first => .multipleParents c.child first c.parent

/-- What is wrong with the first claim at fault. -/
def firstFault? (size : Nat) (claims : List Claim) : Option Violation :=
  firstObjection (fault? size) [] claims

variable {ops : List (Operation Ref × Span)} {claims : List Claim} {c : Claim}

theorem holder?_append (claims more : List Claim) (child : Nat) :
    holder? (claims ++ more) child = (holder? claims child).or (holder? more child) := by
  rw [holder?, List.find?_append, Option.map_or]
  rfl

theorem holder?_singleton (c : Claim) (child : Nat) :
    holder? [c] child = if c.child = child then some c.parent else none := by
  by_cases h : c.child = child <;> simp [holder?, h]

theorem holder?_eq_none_iff {child : Nat} :
    holder? claims child = none ↔ ∀ c ∈ claims, c.child ≠ child := by
  simp [holder?]

theorem mem_of_holder? {child parent : Nat} (h : holder? claims child = some parent) :
    ⟨parent, child⟩ ∈ claims := by
  obtain ⟨c, hc, rfl⟩ := Option.map_eq_some_iff.1 h
  have hchild : c.child = child := by simpa using List.find?_some hc
  subst hchild
  exact List.mem_of_find?_eq_some hc

/-- A claim is made by an operation at its parent's place. -/
theorem mem_ofOperations_iff :
    c ∈ ofOperations ops ↔ ∃ op span, ops[c.parent]? = some (op, span) ∧
      c.child ∈ op.children := by
  simp only [ofOperations, Operation.claims, List.mem_flatMap, List.mem_map, Prod.exists,
    List.mk_mem_zipIdx_iff_getElem?]
  constructor
  · rintro ⟨op, span, place, hop, child, hchild, rfl⟩
    exact ⟨op, span, hop, hchild⟩
  · rintro ⟨op, span, hop, hchild⟩
    exact ⟨op, span, c.parent, hop, c.child, hchild, rfl⟩

theorem parent_lt_of_mem_ofOperations (h : c ∈ ofOperations ops) : c.parent < ops.length := by
  obtain ⟨op, span, hop, -⟩ := mem_ofOperations_iff.1 h
  exact (List.getElem?_eq_some_iff.1 hop).1

theorem parent_of_mem_claims {op : Operation Ref} {place : Nat} (h : c ∈ op.claims place) :
    c.parent = place := by
  obtain ⟨child, -, rfl⟩ := List.mem_map.1 h
  rfl

theorem ofOperations_concat (ops : List (Operation Ref × Span)) (p : Operation Ref × Span) :
    ofOperations (ops ++ [p]) = ofOperations ops ++ p.1.claims ops.length := by
  simp [ofOperations, List.zipIdx_append]

/-- The children that are claimed, as the child lists have them. -/
theorem map_child_ofOperations (ops : List (Operation Ref × Span)) :
    (ofOperations ops).map child = ops.flatMap (·.1.children) := by
  rw [ofOperations, List.map_flatMap]
  simp only [Operation.claims, List.map_map, Function.comp_def, List.map_id']
  calc ops.zipIdx.flatMap (fun p => p.1.1.children)
      = (ops.zipIdx.map Prod.fst).flatMap (·.1.children) := by rw [List.flatMap_map]
    _ = ops.flatMap (·.1.children) := by rw [List.zipIdx_map_fst]

/-! ## Claims without fault -/

theorem fault?_eq_none_iff {size : Nat} (before : List Claim) (c : Claim) :
    fault? size before c = none ↔
      (c.child < size ∧ c.child < c.parent) ∧ ∀ b ∈ before, b.child ≠ c.child := by
  rw [fault?]
  split
  · next h => simp [Nat.not_lt.2 h]
  · next h =>
      split
      · next h' => simp [Nat.not_lt.2 h']
      · next h' => simp [holder?_eq_none_iff, Nat.not_le.1 h, Nat.not_le.1 h']

/-- Claims are free of faults when each child is there, comes first and is claimed
once. -/
theorem firstFault?_eq_none_iff {size : Nat} :
    firstFault? size claims = none ↔
      (∀ c ∈ claims, c.child < size ∧ c.child < c.parent) ∧ (claims.map child).Nodup := by
  rw [firstFault?, firstObjection_eq_none_iff_nodup fault?_eq_none_iff]
  simp

/-- Where children are claimed once, whoever claims a child holds it. -/
theorem holder?_eq_some_iff (h : (claims.map child).Nodup) {parent child : Nat} :
    holder? claims child = some parent ↔ ⟨parent, child⟩ ∈ claims := by
  refine ⟨mem_of_holder?, fun hmem => ?_⟩
  cases hfirst : holder? claims child with
  | none => exact absurd rfl (holder?_eq_none_iff.1 hfirst _ hmem)
  | some first =>
      have hinj := List.inj_on_of_nodup_map h (mem_of_holder? hfirst) hmem rfl
      rw [Claim.mk.inj hinj |>.1]

end Claim

namespace Forest

variable {ops : List (Operation Ref × Span)} {claims : List Claim}

/-- Forests are equal when they have the same node at every place. -/
theorem ext_node? {f g : Forest} (h : ∀ i, f.node? i = g.node? i) : f = g := by
  cases f
  cases g
  congr 1
  exact Array.ext_getElem? h

/-- The forest of the operations in which every node is linked to who claimed it
first. -/
def linkedBy (ops : List (Operation Ref × Span)) (claims : List Claim) : Forest :=
  ⟨(ops.mapIdx fun i (op, span) => ⟨op, span, Claim.holder? claims i⟩).toArray⟩

theorem node?_linkedBy (ops : List (Operation Ref × Span)) (claims : List Claim) (i : Nat) :
    (linkedBy ops claims).node? i =
      ops[i]?.map fun (op, span) => ⟨op, span, Claim.holder? claims i⟩ := by
  simp [linkedBy, node?]

@[simp]
theorem size_linkedBy : (linkedBy ops claims).size = ops.length := by
  simp [linkedBy, size]

theorem parent?_linkedBy {i : Nat} (h : i < ops.length) :
    (linkedBy ops claims).parent? i = Claim.holder? claims i := by
  rw [parent?, node?_linkedBy, List.getElem?_eq_getElem h]
  rfl

@[simp]
theorem operations_linkedBy : (linkedBy ops claims).operations = ops := by
  refine List.ext_getElem? fun i => ?_
  simp [operations, linkedBy, Function.comp_def]

theorem claim_linkedBy (parent child : Nat) :
    (linkedBy ops claims).claim parent child = linkedBy ops (claims ++ [⟨parent, child⟩]) := by
  refine ext_node? fun i => ?_
  rw [node?_linkedBy, Claim.holder?_append, Claim.holder?_singleton]
  simp only [claim, node?]
  rw [Array.getElem?_modify]
  have hi := node?_linkedBy ops claims i
  rw [node?] at hi
  rw [hi]
  split
  · next h => simp [Function.comp_def]
  · next h => simp

/-- A new node that nobody has claimed is linked to nobody. -/
theorem push_linkedBy (p : Operation Ref × Span)
    (h : Claim.holder? claims ops.length = none) :
    (linkedBy ops claims).push p.1 p.2 = linkedBy (ops ++ [p]) claims := by
  simp [push, linkedBy, h]

theorem foldl_push_linkedBy (ops more : List (Operation Ref × Span)) :
    more.foldl (fun f p => f.push p.1 p.2) (linkedBy ops []) = linkedBy (ops ++ more) [] := by
  induction more generalizing ops with
  | nil => simp
  | cons p more ih => rw [List.foldl_cons, push_linkedBy p rfl, ih, ← List.append_cons]

theorem unlinked_eq (ops : List (Operation Ref × Span)) : unlinked ops = linkedBy ops [] :=
  foldl_push_linkedBy [] ops

/-! ## All operations at once -/

theorem checkChild_eq (f : Forest) (parent child : Nat) :
    f.checkChild parent child = verdict (Claim.fault? f.size [] ⟨parent, child⟩) () := by
  rw [checkChild, Claim.fault?]
  repeat' split
  all_goals rfl

/-- Claiming a free child answers with what is wrong with the claim. -/
theorem claimFree_linkedBy (c : Claim) :
    claimFree c.parent (linkedBy ops claims) c.child =
      verdict (Claim.fault? ops.length claims c) (linkedBy ops (claims ++ [c])) := by
  rw [claimFree, checkChild_eq, size_linkedBy, claim_linkedBy, Claim.fault?, Claim.fault?]
  split
  · rfl
  · next hsize =>
      split
      · rfl
      · rw [parent?_linkedBy (Nat.not_le.1 hsize)]
        cases Claim.holder? claims c.child <;> rfl

/-- The forest of some operations is made if no claim is at fault; else the first
fault is the answer. -/
theorem ofOperations_eq (ops : List (Operation Ref × Span)) :
    ofOperations ops =
      verdict (Claim.firstFault? ops.length (Claim.ofOperations ops))
        (linkedBy ops (Claim.ofOperations ops)) := by
  have hloop : ofOperations ops = (Claim.ofOperations ops).foldlM
      (fun f c => claimFree c.parent f c.child) (linkedBy ops []) := by
    rw [ofOperations, Claim.ofOperations, unlinked_eq, foldlM_flatMap]
    simp only [Operation.claims, List.foldlM_map]
  rw [hloop]
  exact foldlM_verdict (linkedBy ops) (fun _ c => claimFree_linkedBy c) [] _

theorem operations_ofOperations {f : Forest} (h : ofOperations ops = .ok f) :
    f.operations = ops := by
  rw [ofOperations_eq, verdict_eq_ok_iff] at h
  rw [← h.2, operations_linkedBy]

end Forest

end OpLint
