import Mathlib.Data.List.Nodup
import Mathlib.Data.List.ProdSigma
import OpLint.Proofs.Analysis.Calls

/-!
# Which handlers are called

For a body a handler is called for exactly those operations that are of its kind, and no
handler is called that was not registered for this body. As two handlers may be the same
function, and a walk over a forest that nobody checked may meet an operation twice, "once"
is said of places: the place in the walk, and the place in the order of registration. Each
pair of such places is one slot, and the calls for a body are its slots in order.
-/

namespace OpLint

theorem map_product {α β γ δ : Type} (f : α → γ) (g : β → δ) (as : List α) (bs : List β) :
    (as ×ˢ bs).map (Prod.map f g) = as.map f ×ˢ bs.map g := by
  induction as with
  | nil => rfl
  | cons a as ih =>
      rw [List.product_cons, List.map_append, ih, List.map_cons, List.product_cons, List.map_map,
        List.map_map]
      rfl

/-- Each operation of a walk with each handler of its kind, both with their places. -/
def slots (f : Forest) (nodes : List Nat) (rs : List Registered) :
    List ((Nat × Nat) × (Registered × Nat)) :=
  (nodes.zipIdx ×ˢ rs.zipIdx).filter fun s => f.kind? s.1.1 = some s.2.1.handler.kind

section

variable (f : Forest) (nodes : List Nat) (rs : List Registered)

/-- Without the places the slots are what nested loops give. -/
theorem map_slots :
    ((slots f nodes rs).map fun s => (s.1.1, s.2.1)) =
      nodes.flatMap fun i => (rs.filter fun r => f.kind? i = some r.handler.kind).map (i, ·) := by
  have hfilter : (slots f nodes rs).map (Prod.map Prod.fst Prod.fst) =
      (nodes ×ˢ rs).filter fun c => f.kind? c.1 = some c.2.handler.kind := by
    rw [← List.zipIdx_map_fst 0 nodes, ← List.zipIdx_map_fst 0 rs, ← map_product, List.filter_map,
      List.zipIdx_map_fst, List.zipIdx_map_fst]
    rfl
  show (slots f nodes rs).map (Prod.map Prod.fst Prod.fst) = _
  rw [hfilter]
  show (nodes.flatMap fun i => rs.map (i, ·)).filter _ = _
  rw [List.filter_flatMap]
  exact List.flatMap_congr fun i _ => List.filter_map

theorem nodup_zipIdx_snd {α : Type} (as : List α) : (as.zipIdx.map Prod.snd).Nodup := by
  rw [List.zipIdx_map_snd]
  exact List.nodup_range'

/-- No pair of places is a slot twice. -/
theorem nodup_slots : ((slots f nodes rs).map fun s => (s.1.2, s.2.2)).Nodup := by
  have hplaces : ((nodes.zipIdx ×ˢ rs.zipIdx).map (Prod.map Prod.snd Prod.snd)).Nodup := by
    rw [map_product]
    exact (nodup_zipIdx_snd nodes).product (nodup_zipIdx_snd rs)
  exact hplaces.sublist (List.filter_sublist.map _)

/-- If the walk meets no operation twice, no handler is called for an operation twice. -/
theorem nodup_slots_of_nodup (h : nodes.Nodup) :
    ((slots f nodes rs).map fun s => (s.1.1, s.2.2)).Nodup := by
  have hplaces : ((nodes.zipIdx ×ˢ rs.zipIdx).map (Prod.map Prod.fst Prod.snd)).Nodup := by
    rw [map_product, List.zipIdx_map_fst]
    exact h.product (nodup_zipIdx_snd rs)
  exact hplaces.sublist (List.filter_sublist.map _)

end

namespace Analyzer

variable {a : Analyzer} {site : BodyStart}

theorem mem_registered {r : Registered} :
    r ∈ a.registered site ↔
      r.rule ∈ a.rules ∧ r.rule.analyzes site.unit = true ∧
        ∃ action ∈ r.rule.registration.actions, action.keeps site = true ∧
          r.handler ∈ (action.start site).output := by
  simp only [registered, List.mem_flatMap, List.mem_filter, List.mem_map]
  constructor
  · rintro ⟨rule, ⟨hrule, hunit⟩, action, ⟨haction, hkeeps⟩, handler, hhandler, rfl⟩
    exact ⟨hrule, hunit, action, haction, hkeeps, hhandler⟩
  · rintro ⟨hrule, hunit, action, haction, hkeeps, hhandler⟩
    exact ⟨r.rule, ⟨hrule, hunit⟩, action, ⟨haction, hkeeps⟩, r.handler, hhandler, rfl⟩

end Analyzer

/-- Without severities in the options, findings stay as they were reported. -/
theorem map_adjust_of_no_override {o : Options} (h : ∀ code, o.severityOverride? code = none)
    (found : List Finding) : found.map (Finding.adjust o) = found := by
  have hadjust : Finding.adjust o = id := by
    funext f
    rw [Finding.adjust, Diagnostic.adjust, h]
    rfl
  rw [hadjust, List.map_id]

/-- In a run that is not to stop, the visit of a body with a known method calls handlers as
nested loops over its operations and its registered handlers would: one call for each slot,
and all of them registered by the starts of this very body. What it commits, counts and logs
is what the actions and these calls give. -/
theorem visit_calls_slots (a : Analyzer) (run : Run) (w : WorkItem) (method : Method)
    (hrun : run.stopping = false)
    (hmethod : w.unit.symbols.method? w.body.method = some method) :
    let site : BodyStart := ⟨w.unit, w.body, method⟩
    let nodes := w.unit.forest.descendants w.body.root
    let handlers := a.registered site
    let called := invocations w.unit.forest w.body.root (a.handlers site).items
    let calls := called.map fun (i, r) => Call.operation w.unit method i r
    (called = nodes.flatMap fun i =>
        (handlers.filter fun r => w.unit.forest.kind? i = some r.handler.kind).map (i, ·)) ∧
      (called = (slots w.unit.forest nodes handlers).map fun s => (s.1.1, s.2.1)) ∧
      ((slots w.unit.forest nodes handlers).map fun s => (s.1.2, s.2.2)).Nodup ∧
      (nodes.Nodup → ((slots w.unit.forest nodes handlers).map fun s => (s.1.1, s.2.2)).Nodup) ∧
      (∀ c ∈ called, ∃ rule ∈ a.rules, rule.analyzes w.unit = true ∧
        ∃ action ∈ rule.registration.actions, action.keeps site = true ∧
          ∃ handler ∈ (action.start site).output, c.2 = ⟨rule, handler⟩) ∧
      (run.visit a w).sink = run.sink.commit w.key
        ((calls.flatMap Call.found).map (Finding.adjust a.options)) ∧
      ((∀ code, a.options.severityOverride? code = none) →
        (run.visit a w).sink = run.sink.commit w.key (calls.flatMap Call.found)) ∧
      (run.visit a w).faults = run.faults + (a.actionCalls site ++ calls).countP Call.fails ∧
      (run.visit a w).events = run.events ++
        (a.opening w.unit w.body ++ (a.actionCalls site ++ calls).flatMap Call.events) := by
  intro site nodes handlers called calls
  have hcalled : called = a.visits site := a.invocations_handlers site
  have hslots := map_slots w.unit.forest nodes handlers
  have hcalls : a.callsIn w.unit w.body = a.actionCalls site ++ calls := by
    rw [Analyzer.callsIn, hmethod]
    show a.actionCalls site ++ _ = _
    rw [← hcalled]
  have hfound : (a.callsIn w.unit w.body).flatMap Call.found = calls.flatMap Call.found := by
    rw [hcalls, List.flatMap_append, a.flatMap_found_actionCalls, List.nil_append]
  have hsink : (run.visit a w).sink = run.sink.commit w.key
      ((calls.flatMap Call.found).map (Finding.adjust a.options)) := by
    rw [Run.visit_eq hrun, a.harvestBody_eq_calls, hfound]
  refine ⟨hcalled, hcalled.trans hslots.symm, nodup_slots _ _ _, nodup_slots_of_nodup _ _ _, ?_,
    hsink, fun h => ?_, ?_, ?_⟩
  · rintro c hc
    rw [hcalled, Analyzer.visits] at hc
    obtain ⟨i, -, hc⟩ := List.mem_flatMap.1 hc
    obtain ⟨r, hr, rfl⟩ := List.mem_map.1 hc
    obtain ⟨hrule, hunit, action, haction, hkeeps, hhandler⟩ :=
      Analyzer.mem_registered.1 (List.mem_of_mem_filter hr)
    exact ⟨r.rule, hrule, hunit, action, haction, hkeeps, r.handler, hhandler, rfl⟩
  · rw [hsink, map_adjust_of_no_override h]
  · rw [Run.visit_eq hrun, a.harvestBody_eq_calls, hcalls]
    rfl
  · rw [Run.visit_eq hrun, a.harvestBody_eq_calls, hcalls]
    rfl

theorem visit_calls_slots_sample :
    (Run.start false).stopping = false ∧
      Sample.unit.symbols.method? Sample.body.method = some Sample.method ∧
      invocations Sample.unit.forest Sample.body.root
          (Sample.analyzer.handlers ⟨Sample.unit, Sample.body, Sample.method⟩).items =
        [(1, ⟨Sample.activeRule, Sample.returnHandler⟩),
          (0, ⟨Sample.activeRule, Sample.literalHandler⟩)] ∧
      ((Run.start false).visit Sample.analyzer ⟨⟨0, 0⟩, Sample.unit, Sample.body⟩).sink =
        ⟨[(⟨0, 0⟩, [⟨0, Sample.diagnostic⟩])]⟩ := by
  obtain ⟨hcalled, -, -, -, -, -, hsink, -⟩ := visit_calls_slots Sample.analyzer (.start false)
    ⟨⟨0, 0⟩, Sample.unit, Sample.body⟩ Sample.method rfl rfl
  have hinvocations := hcalled.trans Sample.visits_unit
  refine ⟨rfl, rfl, hinvocations, (hsink fun _ => rfl).trans ?_⟩
  rw [hinvocations]
  rfl

end OpLint
