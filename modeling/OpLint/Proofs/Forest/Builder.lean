import Mathlib.Data.List.Induction
import OpLint.Proofs.Forest.Claims

/-!
# Forests built node by node

`add` links what it can and refuses nothing. A forest that was built with it is
decided by its operations all the same: every node is linked to who claimed it first,
counting only the claims whose child comes before its parent. Since `check` reads the
finished links and `ofOperations` makes them on its way, the two are compared claim by
claim. Up to the first fault both see the same holder for the child, and they part in
one case only, when the holder is the very node that claims. A node that names a child
again is at fault for `ofOperations` and fine for `check`.
-/

namespace OpLint

namespace Claim

variable {ops : List (Operation Ref × Span)} {claims before : List Claim} {c : Claim}

/-- Whether the child comes before its parent. -/
def precedes (c : Claim) : Bool :=
  c.child < c.parent

/-- Claims whose children all come first lose nothing when the others are dropped. -/
theorem holder?_filter_precedes {child : Nat}
    (h : ∀ c ∈ claims, c.child = child → c.precedes) :
    holder? (claims.filter precedes) child = holder? claims child := by
  induction claims with
  | nil => rfl
  | cons c claims ih =>
      have ih := ih fun d hd => h d (List.mem_cons_of_mem c hd)
      by_cases hc : c.precedes
      · rw [List.filter_cons_of_pos hc, ← List.singleton_append, holder?_append, ih,
          ← holder?_append, List.singleton_append]
      · have hne : c.child ≠ child := fun heq => hc (h c List.mem_cons_self heq)
        rw [List.filter_cons_of_neg hc, ih, ← List.singleton_append, holder?_append,
          holder?_singleton, if_neg hne, Option.none_or]

theorem filter_precedes_of_firstFault? {size : Nat} (h : firstFault? size claims = none) :
    claims.filter precedes = claims := by
  refine List.filter_eq_self.2 fun c hc => ?_
  simpa [precedes] using ((firstFault?_eq_none_iff.1 h).1 c hc).2

end Claim

namespace Forest

variable {ops : List (Operation Ref × Span)} {claims : List Claim}

/-- The forest that grows from nothing when the operations are added one by one. -/
def build (ops : List (Operation Ref × Span)) : Forest :=
  ops.foldl (fun f p => f.add p.1 p.2) empty

theorem linkedBy_congr {claims' : List Claim}
    (h : ∀ i < ops.length, Claim.holder? claims i = Claim.holder? claims' i) :
    linkedBy ops claims = linkedBy ops claims' := by
  refine ext_node? fun i => ?_
  rw [node?_linkedBy, node?_linkedBy]
  rcases Nat.lt_or_ge i ops.length with hi | hi
  · rw [h i hi]
  · rw [List.getElem?_eq_none hi]
    rfl

theorem add_linkedBy (op : Operation Ref) (span : Span) :
    (linkedBy ops claims).add op span =
      (linkedBy ops (claims ++ op.claims ops.length)).push op span := by
  have hfold (children : List Nat) (claims : List Claim) :
      children.foldl (claim ops.length) (linkedBy ops claims) =
        linkedBy ops (claims ++ children.map (Claim.mk ops.length)) := by
    induction children generalizing claims with
    | nil => simp
    | cons child children ih =>
        rw [List.foldl_cons, claim_linkedBy, ih, List.map_cons, ← List.append_cons]
  rw [add, size_linkedBy, hfold, Operation.claims]

/-- Every node of a built forest is linked to who claimed it first, among the claims
whose child comes before its parent. -/
theorem build_eq (ops : List (Operation Ref × Span)) :
    build ops = linkedBy ops ((Claim.ofOperations ops).filter Claim.precedes) := by
  induction ops using List.reverseRecOn with
  | nil => rfl
  | append_singleton ops p ih =>
      -- On the nodes that are there, the new node claims only what precedes it.
      have hlinks (held : List Claim) :
          linkedBy ops (held ++ p.1.claims ops.length) =
            linkedBy ops (held ++ (p.1.claims ops.length).filter Claim.precedes) := by
        refine linkedBy_congr fun i hi => ?_
        rw [Claim.holder?_append, Claim.holder?_append, Claim.holder?_filter_precedes]
        intro c hc hchild
        simpa [Claim.precedes, hchild, Claim.parent_of_mem_claims hc] using hi
      have hfree : Claim.holder? ((Claim.ofOperations (ops ++ [p])).filter Claim.precedes)
          ops.length = none := by
        refine Claim.holder?_eq_none_iff.2 fun c hc => ?_
        obtain ⟨hc, hprec⟩ := List.mem_filter.1 hc
        have := Claim.parent_lt_of_mem_ofOperations hc
        simp only [List.length_append, List.length_singleton] at this
        simp only [Claim.precedes, decide_eq_true_eq] at hprec
        omega
      rw [Claim.ofOperations_concat, List.filter_append] at hfree ⊢
      rw [build, List.foldl_append, List.foldl_cons, List.foldl_nil, ← build, ih, add_linkedBy,
        hlinks, push_linkedBy p hfree]

theorem size_build (ops : List (Operation Ref × Span)) : (build ops).size = ops.length := by
  rw [build_eq, size_linkedBy]

theorem operations_build (ops : List (Operation Ref × Span)) : (build ops).operations = ops := by
  rw [build_eq, operations_linkedBy]

/-! ## Checking the finished links -/

/-- What `check` objects to in a claim. -/
def linkFault? (f : Forest) (c : Claim) : Option Violation :=
  (Claim.fault? f.size [] c).or <|
    if f.parent? c.child = some c.parent then none
    else some (.multipleParents c.child ((f.parent? c.child).getD Ref.absent.word.toNat) c.parent)

theorem checkLink_eq (f : Forest) (c : Claim) :
    f.checkLink c.parent c.child = verdict (f.linkFault? c) () := by
  rw [checkLink, checkChild_eq, linkFault?]
  cases Claim.fault? f.size [] c with
  | some v => rfl
  | none =>
      rw [verdict_none, Option.none_or]
      by_cases h : f.parent? c.child = some c.parent
      · rw [if_pos h, if_neg (not_not_intro h)]
        rfl
      · rw [if_neg h, if_pos h]
        rfl

/-- The claims of a forest, node by node. -/
theorem claims_operations (f : Forest) :
    Claim.ofOperations f.operations =
      (List.range f.size).flatMap fun place => (f.children place).map (Claim.mk place) := by
  rw [Claim.ofOperations, List.flatMap_def, List.flatMap_def]
  congr 1
  refine List.ext_getElem? fun i => ?_
  rcases Nat.lt_or_ge i f.nodes.size with hi | hi
  · simp [operations, size, children, node?, hi, Operation.claims]
  · simp [operations, size, hi]

/-- `check` objects to the first claim that did not become a link. -/
theorem check_eq (f : Forest) :
    f.check = verdict ((Claim.ofOperations f.operations).findSome? f.linkFault?) () := by
  have hcheck : f.check =
      (Claim.ofOperations f.operations).forM fun c => f.checkLink c.parent c.child := by
    rw [claims_operations, forM_flatMap, check]
    simp only [List.forM_eq_forM, List.forM_map]
  rw [hcheck, forM_verdict f.checkLink_eq]

/-- A forest that was made from all its operations at once passes its check. -/
theorem check_of_ofOperations {f : Forest} (h : ofOperations ops = .ok f) :
    f.check = .ok () := by
  rw [check_eq, operations_ofOperations h, verdict_eq_ok_iff]
  rw [ofOperations_eq, verdict_eq_ok_iff] at h
  obtain ⟨hfault, rfl⟩ := h
  obtain ⟨hsound, hnodup⟩ := Claim.firstFault?_eq_none_iff.1 hfault
  refine ⟨List.findSome?_eq_none_iff.2 fun c hc => ?_, rfl⟩
  obtain ⟨hsize, horder⟩ := hsound c hc
  rw [linkFault?, size_linkedBy, parent?_linkedBy hsize,
    (Claim.holder?_eq_some_iff hnodup).2 hc, if_pos rfl, Option.or_none,
    Claim.fault?_eq_none_iff]
  exact ⟨⟨hsize, horder⟩, by simp⟩

/-! ## The two checks side by side -/

section Agreement

variable {before after : List Claim} {c : Claim}

/-- As long as nothing is wrong both checks judge a claim alike, unless the node has
made it before. -/
theorem linkFault?_build (h : Claim.ofOperations ops = before ++ c :: after)
    (hbefore : Claim.firstFault? ops.length before = none) :
    (build ops).linkFault? c =
      if c ∈ before then none else Claim.fault? ops.length before c := by
  obtain ⟨hsound, hnodup⟩ := Claim.firstFault?_eq_none_iff.1 hbefore
  rw [linkFault?, size_build, Claim.fault?, Claim.fault?]
  split
  · next hsize => rw [if_neg fun hc => absurd (hsound c hc).1 (by omega), Option.some_or]
  · next hsize =>
      split
      · next horder => rw [if_neg fun hc => absurd (hsound c hc).2 (by omega), Option.some_or]
      · next horder =>
          have hprec : c.precedes := by simpa [Claim.precedes] using horder
          have hholder : (build ops).parent? c.child =
              (Claim.holder? before c.child).or (some c.parent) := by
            rw [build_eq, parent?_linkedBy (Nat.not_le.1 hsize), h, List.filter_append,
              Claim.filter_precedes_of_firstFault? hbefore, Claim.holder?_append,
              List.filter_cons_of_pos hprec, ← List.singleton_append, Claim.holder?_append,
              Claim.holder?_singleton, if_pos rfl, Option.some_or]
          rw [hholder]
          cases hfirst : Claim.holder? before c.child with
          | none =>
              have hfresh : c ∉ before := fun hc => Claim.holder?_eq_none_iff.1 hfirst c hc rfl
              simp [hfresh, Claim.holder?]
          | some first =>
              have hmem : Claim.holder? before c.child = some c.parent ↔ c ∈ before :=
                Claim.holder?_eq_some_iff hnodup
              rw [hfirst, Option.some_inj] at hmem
              by_cases heq : first = c.parent <;> simp [← hmem, heq, Claim.holder?]

/-- Whether no node makes a claim again before something else is wrong. -/
def NoClaimRepeated (ops : List (Operation Ref × Span)) : Prop :=
  ∀ before c after, Claim.ofOperations ops = before ++ c :: after →
    Claim.firstFault? ops.length before = none → c ∉ before

theorem firstFault?_eq_findSome? (h : NoClaimRepeated ops) :
    Claim.firstFault? ops.length (Claim.ofOperations ops) =
      (Claim.ofOperations ops).findSome? (build ops).linkFault? := by
  refine firstObjection_eq_findSome? fun before c after hsplit hbefore => ?_
  rw [linkFault?_build hsplit hbefore, if_neg (h before c after hsplit hbefore)]
  rfl

/-- An objection about two parents names the claim that it is about. -/
theorem eq_of_linkFault? {f : Forest} {child first second : Nat}
    (h : f.linkFault? c = some (.multipleParents child first second)) : c = ⟨second, child⟩ := by
  rw [linkFault?, Claim.fault?] at h
  split at h
  · simp at h
  · split at h
    · simp at h
    · simp only [Claim.holder?, List.find?_nil, Option.map_none, Option.none_or] at h
      split at h
      · simp at h
      · simp only [Option.some.injEq, Violation.multipleParents.injEq] at h
        obtain ⟨rfl, -, rfl⟩ := h
        rfl

/-- A repeated claim is at fault for `ofOperations`, and never for `check`. -/
theorem findSome?_linkFault?_ne (hsplit : Claim.ofOperations ops = before ++ c :: after)
    (hbefore : Claim.firstFault? ops.length before = none) (hc : c ∈ before) :
    (Claim.ofOperations ops).findSome? (build ops).linkFault? ≠
      some (.multipleParents c.child c.parent c.parent) := by
  intro h
  obtain ⟨_, d, _, hd, hfault, -⟩ := List.findSome?_eq_some_iff.1 h
  obtain rfl : d = c := eq_of_linkFault? hfault
  rw [linkFault?_build hsplit hbefore, if_pos hc] at hfault
  cases hfault

theorem firstFault?_of_repeated (hsplit : Claim.ofOperations ops = before ++ c :: after)
    (hbefore : Claim.firstFault? ops.length before = none) (hc : c ∈ before) :
    Claim.firstFault? ops.length (Claim.ofOperations ops) =
      some (.multipleParents c.child c.parent c.parent) := by
  obtain ⟨hsound, hnodup⟩ := Claim.firstFault?_eq_none_iff.1 hbefore
  obtain ⟨hsize, horder⟩ := hsound c hc
  refine firstObjection_eq_some_iff.2 ⟨before, c, after, hsplit, hbefore, ?_⟩
  rw [List.nil_append, Claim.fault?, if_neg (by omega), if_neg (by omega),
    (Claim.holder?_eq_some_iff hnodup).2 hc]
  rfl

/-- Operations that each name different children repeat no claim. -/
theorem noClaimRepeated_of_nodup (h : ∀ p ∈ ops, p.1.children.Nodup) : NoClaimRepeated ops := by
  have hclaims : (Claim.ofOperations ops).Nodup := by
    induction ops using List.reverseRecOn with
    | nil => exact List.nodup_nil
    | append_singleton ops p ih =>
        rw [Claim.ofOperations_concat]
        refine List.nodup_append.2 ⟨ih fun q hq => h q (List.mem_append_left _ hq), ?_, ?_⟩
        · refine (h p (by simp)).map fun a b hab => ?_
          exact (Claim.mk.inj hab).2
        · rintro c hc _ hc' rfl
          have := Claim.parent_lt_of_mem_ofOperations hc
          have := Claim.parent_of_mem_claims hc'
          omega
  intro before c after hsplit _ hc
  rw [hsplit] at hclaims
  exact (List.nodup_cons.1 (List.nodup_middle.1 hclaims)).1 (List.mem_append_left after hc)

/-- Checking a built forest and making it again from its operations have the same
outcome exactly when no node claims a child again before something else is wrong, and
so in particular when no node names a child twice. -/
theorem ofOperations_build_eq_check_iff (ops : List (Operation Ref × Span)) :
    (ofOperations (build ops).operations = (build ops).check.map (fun _ => build ops) ↔
      NoClaimRepeated ops) ∧
      ((∀ p ∈ ops, p.1.children.Nodup) →
        ofOperations (build ops).operations = (build ops).check.map fun _ => build ops) := by
  have hagree (h : NoClaimRepeated ops) :
      ofOperations (build ops).operations = (build ops).check.map fun _ => build ops := by
    rw [check_eq, operations_build, ofOperations_eq, ← firstFault?_eq_findSome? h]
    cases hfault : Claim.firstFault? ops.length (Claim.ofOperations ops) with
    | some v => rfl
    | none => rw [build_eq, Claim.filter_precedes_of_firstFault? hfault]; rfl
  refine ⟨⟨fun h before c after hsplit hbefore hc => ?_, hagree⟩,
    fun h => hagree (noClaimRepeated_of_nodup h)⟩
  have hne := findSome?_linkFault?_ne hsplit hbefore hc
  rw [check_eq, operations_build, ofOperations_eq, firstFault?_of_repeated hsplit hbefore hc] at h
  cases hcheck : (Claim.ofOperations ops).findSome? (build ops).linkFault? with
  | none => rw [hcheck] at h; cases h
  | some v =>
      rw [hcheck] at h hne
      exact hne (congrArg some (Except.error.inj h).symm)

/-- A child that two nodes name is refused alike. -/
theorem ofOperations_build_eq_check_shared :
    ofOperations (build [(.literal "", .empty), (.returns ⟨0⟩, .empty),
        (.throws ⟨0⟩, .empty)]).operations =
      (build [(.literal "", .empty), (.returns ⟨0⟩, .empty), (.throws ⟨0⟩, .empty)]).check.map
        fun _ => build [(.literal "", .empty), (.returns ⟨0⟩, .empty), (.throws ⟨0⟩, .empty)] :=
  (ofOperations_build_eq_check_iff _).2 (by decide)

/-- A child that one node names twice passes the check, and is refused when the forest
is made again. -/
theorem check_build_repeated :
    (build [(.literal "", .empty), (.block [⟨0⟩, ⟨0⟩], .empty)]).check = .ok () ∧
      ofOperations (build [(.literal "", .empty), (.block [⟨0⟩, ⟨0⟩], .empty)]).operations =
        .error (.multipleParents 0 1 1) := by
  decide

end Agreement

end Forest

end OpLint
