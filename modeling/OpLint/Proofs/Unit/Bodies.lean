import OpLint.Analysis.Scan
import OpLint.Proofs.Forest.Preorder
import OpLint.Proofs.Unit.Checked
import OpLint.Proofs.Unit.RoundTrip
import OpLint.Rule.InfiniteRecursion

/-!
# The bodies of a unit are trees of their own

All bodies of a unit share one forest, and no check compares what they reach. That they stay
apart follows from the links: every node has one way up, so there is one topmost node above
it, and a walk downward from a node without a parent passes exactly the nodes that have it as
their topmost one. In a checked unit the roots of the bodies have no parents and differ from
each other, and so no node is in two bodies, and no way up leaves the body in which it starts.

The links are those of a forest that was built. `Made` lists the ways in which a unit comes
about; all of them lead to such a forest, since reading one gives what building it gives.
-/

namespace OpLint

theorem Ref.eq_of_position? {r s : Ref} {i : Nat} (hr : r.position? = some i)
    (hs : s.position? = some i) : r = s := by
  have hword {r : Ref} (h : r.position? = some i) : r.word.toNat = i := by
    rw [position?] at h
    split at h
    · cases h
    · exact Option.some.inj h
  obtain ⟨v⟩ := r
  obtain ⟨w⟩ := s
  rw [mk.injEq, ← UInt32.toNat_inj]
  exact (hword hr).trans (hword hs).symm

/-! ## Topmost nodes -/

namespace Forest

variable {f : Forest}

/-- The topmost place above `i`, which is `i` itself if nothing is above it. -/
def top (f : Forest) (i : Nat) : Nat :=
  (f.ancestors i).getLast?.getD i

namespace Ascends

variable (h : f.Ascends)

include h

theorem top_eq (i : Nat) : f.top i = (f.parent? i).elim i f.top := by
  rw [top, h.ancestors_eq]
  cases f.parent? i with
  | none => rfl
  | some parent =>
      rw [Option.elim_some, List.getLast?_cons, Option.getD_some, Option.elim_some, top]

theorem top_of_mem_ancestors {i j : Nat} (hj : j ∈ f.ancestors i) : f.top j = f.top i := by
  induction i using h.induction with
  | step i ih =>
      rw [h.ancestors_eq] at hj
      rw [h.top_eq i]
      cases hlink : f.parent? i with
      | none =>
          rw [hlink] at hj
          cases hj
      | some parent =>
          rw [hlink, Option.elim_some, List.mem_cons] at hj
          rw [Option.elim_some]
          rcases hj with rfl | hj
          · rfl
          · exact ih parent hlink hj

/-- The walk down from a node without a parent passes the nodes whose topmost node it is. -/
theorem mem_preorder_iff_top {root i : Nat} (hroot : f.parent? root = none) :
    i ∈ f.preorder root ↔ f.top i = root := by
  induction i using h.induction with
  | step i ih =>
      rw [h.top_eq]
      by_cases hne : i = root
      · rw [hne, hroot, preorder_eq]
        exact iff_of_true List.mem_cons_self rfl
      · rw [h.mem_preorder_iff_of_ne hne]
        cases hlink : f.parent? i with
        | none => simp [hne]
        | some parent =>
            rw [Option.elim_some, ← ih parent hlink]
            simp

/-- The way up from a node is decided by the nodes on it. -/
theorem ancestors_congr {g : Forest} {i : Nat}
    (hg : ∀ j ∈ i :: f.ancestors i, g.node? j = f.node? j) : g.ancestors i = f.ancestors i := by
  induction i using h.induction with
  | step i ih =>
      have hparent : g.parent? i = f.parent? i := by
        rw [parent?, parent?, hg i List.mem_cons_self]
      rw [ancestors, hparent]
      rw [h.ancestors_eq] at hg ⊢
      cases hlink : f.parent? i with
      | none => rfl
      | some parent =>
          rw [hlink, Option.elim_some] at hg
          have hsize : parent < g.size := by
            by_contra hsize
            have hnode := hg parent (List.mem_cons_of_mem i List.mem_cons_self)
            rw [node?, node?, Array.getElem?_eq_none (Nat.not_lt.1 hsize),
              Array.getElem?_eq_getElem (h.parent_lt_size hlink)] at hnode
            cases hnode
          rw [Option.elim_some, ← ih parent hlink fun j hj => hg j (List.mem_cons_of_mem i hj)]
          exact if_pos ⟨(h i parent hlink).1, hsize⟩

/-- How sure it is that an operation runs is decided by the nodes on its way up. -/
theorem certainty_congr {g : Forest} {i : Nat}
    (hg : ∀ j ∈ i :: f.ancestors i, g.node? j = f.node? j) :
    InfiniteRecursion.certainty g i = InfiniteRecursion.certainty f i := by
  have hkinds : ((g.ancestors i).filterMap fun j => (g.node? j).map (·.operation.kind)) =
      (f.ancestors i).filterMap fun j => (f.node? j).map (·.operation.kind) := by
    rw [h.ancestors_congr hg]
    refine List.filterMap_congr fun j hj => ?_
    rw [hg j (List.mem_cons_of_mem i hj)]
  rw [InfiniteRecursion.certainty, hkinds, InfiniteRecursion.certainty]

end Ascends

end Forest

/-! ## How units come about -/

namespace CompilationUnit

variable {u v : CompilationUnit} {b c : Body}

/-- The units that can be had: read from a text, or put together around a forest that is empty
or was made at once, and grown step by step. Everything but the forest may be changed at will. -/
inductive Made : CompilationUnit → Prop
  | ofFile (file : String) : Made (.ofFile file)
  | ofText {text : String} {u : CompilationUnit} : CompilationUnit.ofText text = .ok u → Made u
  | ofOperations {ops : List (Operation Ref × Span)} {u : CompilationUnit} :
    Forest.ofOperations ops = .ok u.forest → Made u
  | addOperation {u : CompilationUnit} (operation : Operation Ref) (span : Span) :
    Made u → Made (u.addOperation operation span)
  | keepForest {u v : CompilationUnit} : Made u → v.forest = u.forest → Made v

/-- However a unit came about, its forest could have been built from its operations. -/
theorem Made.exists_forest_eq (h : u.Made) : ∃ ops, u.forest = Forest.build ops := by
  induction h with
  | ofFile file => exact ⟨[], rfl⟩
  | ofText h =>
      obtain ⟨-, hforest⟩ := (load_parts_eq_ok_iff _).1 (load_parts_of_ofText h)
      exact ⟨_, Forest.eq_build_of_ofOperations hforest⟩
  | ofOperations h => exact ⟨_, Forest.eq_build_of_ofOperations h⟩
  | addOperation operation span _ ih =>
      obtain ⟨ops, hops⟩ := ih
      refine ⟨ops ++ [(operation, span)], ?_⟩
      rw [CompilationUnit.addOperation, hops, Forest.build, Forest.build, List.foldl_append]
      rfl
  | keepForest _ hforest ih => rwa [hforest]

theorem Made.ascends (h : u.Made) : u.forest.Ascends := by
  obtain ⟨ops, hops⟩ := h.exists_forest_eq
  rw [hops]
  exact Forest.ascends_build ops

/-! ## The bodies -/

/-- What a body reaches is the tree of its root. -/
theorem mem_descendants_iff_top (hascends : u.forest.Ascends) (hchecked : u.Checked)
    (hb : b ∈ u.bodies) :
    ∃ root, b.root.position? = some root ∧
      ∀ n, n ∈ u.forest.descendants b.root ↔ u.forest.top n = root := by
  obtain ⟨root, hposition, hsize, hparent⟩ := hchecked.roots b hb
  refine ⟨root, hposition, fun n => ?_⟩
  rw [Forest.descendants_eq hposition hsize]
  exact hascends.mem_preorder_iff_top hparent

theorem root_ne_of_check (hcheck : u.check = .ok ()) {i j : Nat} (hi : u.bodies[i]? = some b)
    (hj : u.bodies[j]? = some c) (hne : i ≠ j) : b.root ≠ c.root := by
  intro heq
  have hroots : (u.bodies.map Body.root)[i]? = (u.bodies.map Body.root)[j]? := by
    rw [List.getElem?_map, List.getElem?_map, hi, hj, Option.map_some, Option.map_some, heq]
  have hlength : i < (u.bodies.map Body.root).length := by
    rw [List.length_map]
    exact (List.getElem?_eq_some_iff.1 hi).1
  exact hne (List.getElem?_inj hlength (nodup_roots_of_check hcheck) |>.1 hroots)

theorem disjoint_descendants (hascends : u.forest.Ascends) (hcheck : u.check = .ok ()) {i j : Nat}
    (hi : u.bodies[i]? = some b) (hj : u.bodies[j]? = some c) (hne : i ≠ j) :
    (u.forest.descendants b.root).Disjoint (u.forest.descendants c.root) := by
  have hchecked := checked_of_check hcheck
  obtain ⟨r, hr, hb⟩ := mem_descendants_iff_top hascends hchecked (List.mem_of_getElem? hi)
  obtain ⟨s, hs, hc⟩ := mem_descendants_iff_top hascends hchecked (List.mem_of_getElem? hj)
  intro n hnb hnc
  obtain rfl : r = s := ((hb n).1 hnb).symm.trans ((hc n).1 hnc)
  exact root_ne_of_check hcheck hi hj hne (Ref.eq_of_position? hr hs)

theorem mem_descendants_of_mem_invocations {f : Forest} {root : Ref} {rs : List Registered}
    {n : Nat} (h : n ∈ (invocations f root rs).map Prod.fst) : n ∈ f.descendants root := by
  obtain ⟨⟨m, r⟩, hcall, rfl⟩ := List.mem_map.1 h
  obtain ⟨i, hi, hcall⟩ := List.mem_flatMap.1 hcall
  cases hnode : f.node? i with
  | none => simp [hnode] at hcall
  | some node =>
      simp only [hnode, List.mem_map] at hcall
      obtain ⟨r', -, heq⟩ := hcall
      cases heq
      exact hi

/-- However a unit came about, once it is checked its bodies are separate trees. No operation
is in two of them, so none is handed to handlers for two. What is above an operation of a body
belongs to the body as well, up to its root, which is topmost; so however the forest looks
elsewhere, it is equally sure that the operation runs. -/
theorem bodies_apart (hmade : u.Made) (hcheck : u.check = .ok ()) :
    (∀ (i j : Nat) (b c : Body), u.bodies[i]? = some b → u.bodies[j]? = some c → i ≠ j →
      (u.forest.descendants b.root).Disjoint (u.forest.descendants c.root) ∧
      ∀ rs rs', ((invocations u.forest b.root rs).map Prod.fst).Disjoint
        ((invocations u.forest c.root rs').map Prod.fst)) ∧
    ∀ b ∈ u.bodies, ∃ root, b.root.position? = some root ∧
      ∀ n ∈ u.forest.descendants b.root,
        (∀ m ∈ u.forest.ancestors n, m ∈ u.forest.descendants b.root) ∧
        u.forest.top n = root ∧
        ∀ g : Forest, (∀ m ∈ u.forest.descendants b.root, g.node? m = u.forest.node? m) →
          InfiniteRecursion.certainty g n = InfiniteRecursion.certainty u.forest n := by
  have hascends := hmade.ascends
  refine ⟨fun i j b c hi hj hne => ?_, fun b hb => ?_⟩
  · have hdisjoint := disjoint_descendants hascends hcheck hi hj hne
    exact ⟨hdisjoint, fun rs rs' n hn hn' => hdisjoint
      (mem_descendants_of_mem_invocations hn) (mem_descendants_of_mem_invocations hn')⟩
  · obtain ⟨root, hposition, hmem⟩ :=
      mem_descendants_iff_top hascends (checked_of_check hcheck) hb
    refine ⟨root, hposition, fun n hn => ?_⟩
    have habove (m : Nat) (hm : m ∈ u.forest.ancestors n) : m ∈ u.forest.descendants b.root :=
      (hmem m).2 ((hascends.top_of_mem_ancestors hm).trans ((hmem n).1 hn))
    refine ⟨habove, (hmem n).1 hn, fun g hg => hascends.certainty_congr fun m hm => ?_⟩
    rcases List.mem_cons.1 hm with rfl | hm
    · exact hg m hn
    · exact hg m (habove m hm)

/-- Two bodies, of which the first names a literal twice, and a literal outside of both. -/
def twoBodies : CompilationUnit where
  file := "a.cs"
  generated := false
  source := none
  symbols := .ofLists [] [⟨"M", "T", .ordinary, none⟩, ⟨"N", "T", .ordinary, none⟩]
  bodies := [⟨0, ⟨1⟩⟩, ⟨1, ⟨4⟩⟩]
  forest := ((((Forest.empty.add (.literal "1") .empty).add (.block [⟨0⟩, ⟨0⟩]) .empty).add
    (.literal "2") .empty).add (.literal "3") .empty).add (.returns ⟨3⟩) .empty

theorem bodies_apart_twoBodies :
    twoBodies.Made ∧ twoBodies.check = .ok () ∧
      (twoBodies.forest.descendants ⟨1⟩).Disjoint (twoBodies.forest.descendants ⟨4⟩) ∧
      ∀ n ∈ twoBodies.forest.descendants ⟨4⟩, twoBodies.forest.top n = 4 := by
  have hmade : twoBodies.Made :=
    .keepForest (.addOperation _ _ <| .addOperation _ _ <| .addOperation _ _ <|
      .addOperation _ _ <| .addOperation _ _ <| .ofFile "a.cs") rfl
  have hcheck : twoBodies.check = .ok () := by decide
  obtain ⟨hapart, hbodies⟩ := bodies_apart hmade hcheck
  refine ⟨hmade, hcheck, (hapart 0 1 _ _ rfl rfl (by decide)).1, fun n hn => ?_⟩
  obtain ⟨root, hroot, hbody⟩ := hbodies ⟨1, ⟨4⟩⟩ (by decide)
  cases hroot
  exact (hbody n hn).2.1

end CompilationUnit

end OpLint
