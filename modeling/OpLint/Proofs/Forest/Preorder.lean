import OpLint.Proofs.Forest.Walk

/-!
# The walk downward is the pre-order

`Preorder` says what the pre-order of some trees is by the child lists alone: a root, what is
below it, then the trees that follow. It knows neither links nor an order of the places, so a
forest may have no pre-order at all, if a node is below itself.

A forest that was made from all its operations at once has one for each of its nodes, and the
walk visits it. There every child list consists of links, so the walk, which only follows
links, leaves out nothing; and no child is named twice, so it repeats nothing.
-/

namespace OpLint.Forest

/-- The places of some trees in pre-order: a root, then its children with all that is below
them, then the other trees. -/
inductive Preorder (f : Forest) : List Nat → List Nat → Prop
  | nil : Preorder f [] []
  | cons {root : Nat} {roots below rest : List Nat} :
    root < f.size → Preorder f (f.children root) below → Preorder f roots rest →
      Preorder f (root :: roots) (root :: below ++ rest)

variable {f : Forest} {ops : List (Operation Ref × Span)}

theorem Preorder.unique {roots places places' : List Nat} (h : f.Preorder roots places)
    (h' : f.Preorder roots places') : places = places' := by
  induction h generalizing places' with
  | nil =>
      cases h'
      rfl
  | cons _ _ _ ihbelow ihrest =>
      cases h' with
      | cons _ hbelow hrest => rw [ihbelow hbelow, ihrest hrest]

theorem Preorder.single {i : Nat} {below : List Nat} (hi : i < f.size)
    (hbelow : f.Preorder (f.children i) below) : f.Preorder [i] (i :: below) := by
  have hplaces := Preorder.cons hi hbelow .nil
  rwa [List.append_nil] at hplaces

theorem Preorder.append {roots roots' places places' : List Nat} (h : f.Preorder roots places)
    (h' : f.Preorder roots' places') : f.Preorder (roots ++ roots') (places ++ places') := by
  induction h with
  | nil => exact h'
  | cons hroot hbelow _ _ ihrest =>
      rw [List.append_assoc]
      exact .cons hroot hbelow ihrest

/-- The pre-order of several trees is put together from theirs. -/
theorem Preorder.flatMap {g : Nat → List Nat} {roots : List Nat}
    (h : ∀ i ∈ roots, f.Preorder [i] (g i)) : f.Preorder roots (roots.flatMap g) := by
  induction roots with
  | nil => exact .nil
  | cons i roots ih =>
      rw [List.flatMap_cons]
      exact (h i List.mem_cons_self).append (ih fun j hj => h j (List.mem_cons_of_mem i hj))

theorem preorder_of_linked (h : f.Linked) {i : Nat} (hi : i < f.size) :
    f.Preorder [i] (f.preorder i) := by
  induction i using Nat.strongRecOn with
  | ind i ih =>
      have hbelow : f.Preorder (f.children i) ((f.children i).flatMap f.preorder) := by
        refine .flatMap fun child hchild => ?_
        obtain ⟨hsize, hlt, -⟩ := h i child hchild
        exact ih child hlt hsize
      rw [preorder_eq, followed_eq h]
      exact .single hi hbelow

/-! ## Forests made at once -/

/-- What is made at once is what would be built node by node. -/
theorem eq_build_of_ofOperations (h : ofOperations ops = .ok f) : f = build ops := by
  rw [ofOperations_eq, verdict_eq_ok_iff] at h
  rw [build_eq, Claim.filter_precedes_of_firstFault? h.1, h.2]

theorem nodup_children_of_ofOperations (h : ofOperations ops = .ok f) (i : Nat) :
    (f.children i).Nodup := by
  rw [eq_build_of_ofOperations h, children_build]
  rw [ofOperations_eq, verdict_eq_ok_iff, Claim.firstFault?_eq_none_iff,
    Claim.map_child_ofOperations] at h
  cases hop : ops[i]? with
  | none => exact List.nodup_nil
  | some p => exact (List.nodup_flatMap.1 h.1.2).1 p (List.mem_of_getElem? hop)

/-- The walk down from a node visits the pre-order of its tree, in which nothing comes twice. It
visits nothing if there is no such node. -/
theorem preorder_iff_descendants (h : ofOperations ops = .ok f) (root : Ref) :
    (∀ i, root.position? = some i → i < f.size →
      (∀ places, f.Preorder [i] places ↔ places = f.descendants root) ∧
        (f.descendants root).Nodup) ∧
    ((∀ i, root.position? = some i → f.size ≤ i) → f.descendants root = []) := by
  have hlinked : f.Linked := check_eq_ok_iff.1 (check_of_ofOperations h)
  have hascends : f.Ascends := eq_build_of_ofOperations h ▸ ascends_build ops
  refine ⟨fun i hroot hi => ⟨fun places => ?_, ?_⟩, fun hnone => ?_⟩
  · have hplaces := preorder_of_linked hlinked hi
    rw [descendants_eq hroot hi]
    exact ⟨fun h => h.unique hplaces, fun heq => heq ▸ hplaces⟩
  · refine hascends.nodup_descendants_iff.2 fun j _ child _ => ?_
    exact List.nodup_iff_count_le_one.1 (nodup_children_of_ofOperations h j) child
  · have hfind : f.find? root = none :=
      Option.filter_eq_none_iff.2 fun i hi => by simpa using hnone i hi
    rw [descendants, hfind, Option.toList_none, walk]

/-- A condition without an else branch, within a block. -/
theorem preorder_iff_descendants_conditional :
    let ops : List (Operation Ref × Span) := [(.literal "c", .empty), (.literal "1", .empty),
      (.conditional ⟨0⟩ ⟨1⟩ .absent, .empty), (.literal "2", .empty), (.block [⟨2⟩, ⟨3⟩], .empty)]
    ofOperations ops = .ok (build ops) ∧ (build ops).descendants ⟨4⟩ = [4, 2, 0, 1, 3] := by
  intro ops
  have h : ofOperations ops = .ok (build ops) := by decide
  refine ⟨h, ?_⟩
  obtain ⟨hwalk, -⟩ := (preorder_iff_descendants h ⟨4⟩).1 4 rfl (by decide)
  refine ((hwalk _).1 ?_).symm
  have hleaf (i : Nat) (hi : i < (build ops).size) (hchildren : (build ops).children i = []) :
      (build ops).Preorder [i] [i] :=
    .single hi (by rw [hchildren]; exact .nil)
  have hcondition : (build ops).Preorder [2] [2, 0, 1] :=
    .single (by decide) ((hleaf 0 (by decide) rfl).append (hleaf 1 (by decide) rfl))
  exact .single (by decide) (hcondition.append (hleaf 3 (by decide) rfl))

end OpLint.Forest
