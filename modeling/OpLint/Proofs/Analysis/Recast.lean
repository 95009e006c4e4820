import OpLint.Proofs.Analysis.Calls

/-!
# The same calls with other rules

Which callbacks are called depends on little: which rules may look at a unit, which actions
say yes to a method, and of what kind the handlers are that they give. A recast changes rules,
actions and handlers and leaves the latter two alone. In a unit that the same rules may look
at as before, the calls of the recast analyzer are then the recast calls, one for one and in
the same order, so two analyses can be compared call by call.

One recast forgets the places of the rules. It shows that the place of a rule among the
others is a mere mark on its findings.
-/

namespace OpLint

/-- The handlers that an action gives for a body, none if it does not want the body or fails
to start it. -/
def BodyAction.given (action : BodyAction) (site : BodyStart) : List Handler :=
  if action.keeps site then (action.start site).output else []

/-- A change of rules that leaves alone which callbacks a rule wants to be called. -/
structure Recast where
  rule : ActiveRule → ActiveRule
  action : BodyAction → BodyAction
  handler : Handler → Handler
  actions_rule (r : ActiveRule) : (rule r).registration.actions = r.registration.actions.map action
  isYes_action (x : BodyAction) (m : Method) :
    ((action x).accepts m).isYes = (x.accepts m).isYes
  given_action (x : BodyAction) (site : BodyStart) :
    (action x).given site = (x.given site).map handler
  kind_handler (h : Handler) : (handler h).kind = h.kind

namespace Recast

variable (t : Recast)

def registered (r : Registered) : Registered :=
  ⟨t.rule r.rule, t.handler r.handler⟩

def call : Call → Call
  | .registration id rule => .registration id rule
  | .predicate rule action method => .predicate (t.rule rule) (t.action action) method
  | .start rule action site => .start (t.rule rule) (t.action action) site
  | .operation u method i r => .operation u method i (t.registered r)

end Recast

namespace Analyzer

variable (a : Analyzer) (t : Recast)

def recast : Analyzer :=
  { a with rules := a.rules.map t.rule }

theorem registered_eq (site : BodyStart) :
    a.registered site = (a.rules.filter (·.analyzes site.unit)).flatMap fun rule =>
      rule.registration.actions.flatMap fun action =>
        (action.given site).map (Registered.mk rule) := by
  refine List.flatMap_congr fun rule _ => ?_
  rw [← flatMap_ite_nil]
  refine List.flatMap_congr fun action _ => ?_
  rw [BodyAction.given]
  split <;> rfl

section

variable {a t} {u : CompilationUnit} (h : ∀ r ∈ a.rules, (t.rule r).analyzes u = r.analyzes u)

include h

theorem filter_analyzes_recast :
    (a.recast t).rules.filter (·.analyzes u) = (a.rules.filter (·.analyzes u)).map t.rule := by
  rw [recast, List.filter_map]
  exact congrArg _ (List.filter_congr h)

theorem registered_recast (b : Body) (method : Method) :
    (a.recast t).registered ⟨u, b, method⟩ =
      (a.registered ⟨u, b, method⟩).map t.registered := by
  rw [registered_eq, registered_eq, filter_analyzes_recast h, List.flatMap_map, List.map_flatMap]
  refine List.flatMap_congr fun rule _ => ?_
  rw [t.actions_rule, List.flatMap_map, List.map_flatMap]
  refine List.flatMap_congr fun action _ => ?_
  rw [t.given_action, List.map_map, List.map_map]
  rfl

theorem visits_recast (b : Body) (method : Method) :
    (a.recast t).visits ⟨u, b, method⟩ =
      (a.visits ⟨u, b, method⟩).map fun (i, r) => (i, t.registered r) := by
  rw [visits, visits, List.map_flatMap]
  refine List.flatMap_congr fun i _ => ?_
  have hkind : (fun r => decide (u.forest.kind? i = some r.handler.kind)) ∘ t.registered =
      fun r => decide (u.forest.kind? i = some r.handler.kind) :=
    funext fun r => by rw [Function.comp, Recast.registered, t.kind_handler]
  rw [registered_recast h, List.filter_map, hkind, List.map_map, List.map_map]
  rfl

theorem actionCalls_recast (b : Body) (method : Method) :
    (a.recast t).actionCalls ⟨u, b, method⟩ = (a.actionCalls ⟨u, b, method⟩).map t.call := by
  rw [actionCalls, actionCalls, filter_analyzes_recast h, List.flatMap_map, List.map_flatMap]
  refine List.flatMap_congr fun rule _ => ?_
  rw [t.actions_rule, List.flatMap_map, List.map_flatMap]
  refine List.flatMap_congr fun action _ => ?_
  rw [BodyAction.calls, BodyAction.calls, t.isYes_action]
  split <;> rfl

/-- The calls of a recast analyzer are the recast calls. -/
theorem callsIn_recast (b : Body) :
    (a.recast t).callsIn u b = (a.callsIn u b).map t.call := by
  rw [callsIn, callsIn]
  cases u.symbols.method? b.method with
  | none => rfl
  | some method =>
      show (a.recast t).actionCalls _ ++ ((a.recast t).visits _).map _ = List.map t.call (_ ++ _)
      rw [actionCalls_recast h, visits_recast h, List.map_append, List.map_map, List.map_map]
      rfl

theorem skips_recast (b : Body) : (a.recast t).skips u b = a.skips u b := by
  have hany : (a.recast t).rules.any (·.analyzes u) = a.rules.any (·.analyzes u) := by
    rw [recast, List.any_map, Bool.eq_iff_iff, List.any_eq_true, List.any_eq_true]
    exact exists_congr fun r => and_congr_right fun hr => by rw [Function.comp, h r hr]
  rw [skips, skips, hany]

end

end Analyzer

namespace Recast

/-- A recast that keeps the actions and the handlers of a rule. -/
def ofRule (rule : ActiveRule → ActiveRule)
    (h : ∀ r, (rule r).registration.actions = r.registration.actions) : Recast where
  rule := rule
  action := id
  handler := id
  actions_rule r := (h r).trans (List.map_id _).symm
  isYes_action _ _ := rfl
  given_action _ _ := (List.map_id _).symm
  kind_handler _ := rfl

end Recast

/-! ## Forgetting the places of the rules -/

namespace ActiveRule

def unplaced (r : ActiveRule) : ActiveRule :=
  { r with place := 0 }

theorem actions_unplaced (r : ActiveRule) :
    r.unplaced.registration.actions = r.registration.actions := rfl

end ActiveRule

namespace Recast

/-- Puts all rules at one place. -/
def unplaced : Recast :=
  .ofRule .unplaced ActiveRule.actions_unplaced

theorem diagnostics_found_unplaced (c : Call) :
    (unplaced.call c).found.map Finding.diagnostic = c.found.map Finding.diagnostic := by
  cases c with
  | operation u method i r =>
      have hreports : (ActiveRule.unplaced r.rule).reports u = r.rule.reports u := rfl
      show (if _ then [] else _ : List Finding).map _ = (if _ then [] else _ : List Finding).map _
      simp only [registered, unplaced, ofRule, hreports, id_eq]
      split
      · rfl
      · rw [List.map_map, List.map_map]
        rfl
  | _ => rfl

theorem ofCalls_unplaced (cs : List Call) :
    Effects.ofCalls (cs.map unplaced.call) = .ofCalls cs :=
  Effects.ofCalls_map (fun c => by cases c <;> rfl) (fun c => by cases c <;> rfl)
    (fun c => by cases c <;> rfl) cs

end Recast

namespace Analyzer

theorem diagnostics_harvestBody (a : Analyzer) (u : CompilationUnit) (b : Body) :
    (a.harvestBody u b).items.map Finding.diagnostic =
      (((a.callsIn u b).map Recast.unplaced.call).flatMap fun c =>
        c.found.map Finding.diagnostic).map (Diagnostic.adjust a.options) := by
  rw [List.flatMap_map]
  simp only [Recast.diagnostics_found_unplaced]
  exact a.diagnostics_harvestBody_eq_calls u b

theorem effects_harvestBody (a : Analyzer) (u : CompilationUnit) (b : Body) :
    (a.harvestBody u b).effects = .ofCalls ((a.callsIn u b).map Recast.unplaced.call) := by
  rw [harvestBody_eq_calls, Recast.ofCalls_unplaced]

/-- Analyzers whose rules differ in their places only find the same, and the same happens in
them. -/
theorem harvestBody_congr {a a' : Analyzer}
    (hrules : a.rules.map ActiveRule.unplaced = a'.rules.map ActiveRule.unplaced)
    (hoptions : a.options = a'.options) (u : CompilationUnit) (b : Body) :
    (a.harvestBody u b).items.map Finding.diagnostic =
        (a'.harvestBody u b).items.map Finding.diagnostic ∧
      (a.harvestBody u b).effects = (a'.harvestBody u b).effects ∧
      a.skips u b = a'.skips u b := by
  have hcalls : (a.callsIn u b).map Recast.unplaced.call =
      (a'.callsIn u b).map Recast.unplaced.call := by
    rw [← callsIn_recast fun _ _ => rfl, ← callsIn_recast fun _ _ => rfl]
    show Analyzer.callsIn ⟨a.rules.map ActiveRule.unplaced, a.options, 0⟩ u b = _
    rw [hrules]
    rfl
  refine ⟨?_, ?_, ?_⟩
  · rw [diagnostics_harvestBody, diagnostics_harvestBody, hcalls, hoptions]
  · rw [effects_harvestBody, effects_harvestBody, hcalls]
  · have hskips (a : Analyzer) : (a.recast .unplaced).skips u b = a.skips u b :=
      skips_recast (fun _ _ => rfl) b
    rw [← hskips a, ← hskips a']
    show Analyzer.skips ⟨a.rules.map ActiveRule.unplaced, a.options, 0⟩ u b = _
    rw [hrules]
    rfl

end Analyzer

end OpLint
