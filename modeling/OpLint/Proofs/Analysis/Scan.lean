import OpLint.Analysis.Scan
import OpLint.Proofs.Analysis.Harvest
import OpLint.Proofs.Forest.Tree

/-!
# What the scan of a body finds

The dispatch table only saves time: each operation meets the handlers of its kind, in the
order of their registration, as if all handlers were asked. So a scan finds, operation by
operation in pre-order, what these handlers find.

All handlers put what they find into one array, and what does not count is cut off again.
The mark stands where the array ended before the call, so a cut takes back that one call and
nothing else; a scan is the sequence of what its calls give by themselves.
-/

namespace OpLint

namespace DispatchTable

theorem getD_lookup_cons (k kind : OperationKind) (rs : List Registered)
    (entries : List (OperationKind × List Registered)) :
    (((k, rs) :: entries).lookup kind).getD [] =
      if kind = k then rs else (entries.lookup kind).getD [] := by
  rw [List.lookup_cons]
  by_cases h : kind = k
  · rw [if_pos h, beq_iff_eq.2 h]
    rfl
  · rw [if_neg h, beq_false_of_ne h]

theorem getD_lookup_insert (r : Registered) (kind : OperationKind)
    (entries : List (OperationKind × List Registered)) :
    ((insert r entries).lookup kind).getD [] =
      (entries.lookup kind).getD [] ++ [r].filter (·.handler.kind = kind) := by
  induction entries with
  | nil =>
      rw [insert, getD_lookup_cons]
      by_cases h : kind = r.handler.kind
      · simp [h]
      · simp [h, Ne.symm h]
  | cons entry entries ih =>
      obtain ⟨k, rs⟩ := entry
      rw [insert, getD_lookup_cons]
      by_cases hk : k = r.handler.kind
      · rw [if_pos hk, getD_lookup_cons]
        by_cases h : kind = k
        · simp [h, hk]
        · simp [h, hk ▸ Ne.symm h]
      · rw [if_neg hk, getD_lookup_cons, ih]
        by_cases h : kind = k
        · simp [h, Ne.symm hk]
        · rw [if_neg h, if_neg h]

theorem handlersOf_ofHandlers (rs : List Registered) (kind : OperationKind) :
    (ofHandlers rs).handlersOf kind = rs.filter (·.handler.kind = kind) := by
  have hfold (entries : List (OperationKind × List Registered)) :
      ((rs.foldl (fun entries r => insert r entries) entries).lookup kind).getD [] =
        (entries.lookup kind).getD [] ++ rs.filter (·.handler.kind = kind) := by
    induction rs generalizing entries with
    | nil => simp
    | cons r rs ih =>
        rw [List.foldl_cons, ih, getD_lookup_insert, List.append_assoc, ← List.filter_append]
        rfl
  exact hfold []

end DispatchTable

/-! ## One array for all handlers -/

/-- What a call of a handler gives by itself. -/
def Registered.invoke (r : Registered) (u : CompilationUnit) (method : Method) (operation : Nat) :
    Harvest Finding :=
  let response := r.handler.run ⟨u, method, operation⟩
  let found := if response.fault.isSome || !r.rule.reports u then [] else response.output
  ⟨found.map (Finding.mk r.rule.place),
    response.effects (.handlerFailed r.rule.id (Ref.ofPosition operation).text)⟩

namespace Findings

variable (u : CompilationUnit) (method : Method)

/-- Cutting at the mark takes back what was put behind it, and nothing else. -/
theorem toList_take_append (found : Array Finding) (more : List Finding) :
    ((found ++ more).take found.size).toList = found.toList := by
  rw [Array.take_eq_extract, Array.toList_extract, Array.toList_appendList,
    List.extract_eq_take_drop, List.drop_zero, Nat.sub_zero, ← Array.length_toList, List.take_left]

theorem toList_found_call (s : Findings) (operation : Nat) (r : Registered) :
    (s.call u method operation r).found.toList =
      s.found.toList ++ (r.invoke u method operation).items := by
  rw [call, Registered.invoke]
  simp only
  split
  · rw [toList_take_append, List.map_nil, List.append_nil]
  · rw [Array.toList_appendList]

theorem foldl_call (calls : List (Nat × Registered)) (s : Findings) :
    let s' := calls.foldl (fun s (i, r) => call u method s i r) s
    let given := Harvest.gather (fun (i, r) => Registered.invoke r u method i) calls
    s'.found.toList = s.found.toList ++ given.items ∧
      s'.effects = s.effects.andThen given.effects := by
  induction calls generalizing s with
  | nil => exact ⟨(List.append_nil _).symm, s.effects.andThen_none.symm⟩
  | cons c calls ih =>
      obtain ⟨hfound, heffects⟩ := ih (call u method s c.1 c.2)
      refine ⟨hfound.trans ?_, heffects.trans ?_⟩
      · rw [toList_found_call, List.append_assoc]
        rfl
      · exact Effects.andThen_assoc _ _ _

end Findings

/-- A scan gives what its calls give, one after the other. -/
theorem scan_eq_gather (site : BodyStart) (rs : List Registered) :
    scan site rs = .gather (fun (i, r) => r.invoke site.unit site.method i)
      (invocations site.unit.forest site.body.root rs) := by
  obtain ⟨hfound, heffects⟩ := Findings.foldl_call site.unit site.method
    (invocations site.unit.forest site.body.root rs) .empty
  rw [scan, Harvest.mk.injEq]
  exact ⟨hfound, heffects.trans (Effects.none_andThen _)⟩

theorem scan_nil (site : BodyStart) : scan site [] = .none := by
  have hinvocations : invocations site.unit.forest site.body.root [] = [] := by
    refine List.flatMap_eq_nil_iff.2 fun i _ => ?_
    cases site.unit.forest.node? i <;> rfl
  rw [scan_eq_gather, hinvocations]
  rfl

/-- Leaving out the walk when there are no handlers makes no difference. -/
theorem Analyzer.analyzeBody_eq (a : Analyzer) (site : BodyStart) :
    a.analyzeBody site =
      let found := scan site (a.handlers site).items
      ⟨found.items.map (Finding.adjust a.options),
        (a.handlers site).effects.andThen found.effects⟩ := by
  rw [analyzeBody]
  split
  · next hempty =>
      rw [List.isEmpty_iff.1 hempty, scan_nil]
      exact congrArg (Harvest.mk []) (Effects.andThen_none _).symm
  · rfl

end OpLint
