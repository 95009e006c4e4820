import OpLint.Proofs.Analysis.Registration

/-!
# Failures are contained

A callback can fail after it has reported, registered or logged something. Whatever it had
done, the rest of the analysis goes on as if in its place there had been a callback that
does nothing: the contained one. A rule that fails to register is as good as absent.

The calls of the contained rules are the contained calls, so the two analyses are compared
call by call: a contained call leaves the same findings behind and does not fail.
-/

namespace OpLint

/-- The response itself or, if the callback failed, that of a harmless one. -/
def Response.contained {α : Type} (r : Response α) (harmless : α) : Response α :=
  if r.fault.isSome then .ofOutput harmless else r

namespace Response

variable {α : Type} {r : Response α} {harmless : α}

theorem contained_of_fault {fault : Fault} (h : r.fault = some fault) :
    r.contained harmless = .ofOutput harmless := by
  rw [contained, h]
  rfl

theorem contained_of_no_fault (h : r.fault = none) : r.contained harmless = r := by
  rw [contained, h]
  rfl

theorem fault_contained (r : Response α) (harmless : α) : (r.contained harmless).fault = none := by
  cases h : r.fault with
  | none => rw [contained_of_no_fault h, h]
  | some fault => rw [contained_of_fault h, ofOutput]

theorem cancels_contained (harmless : α) (h : r.cancels = false) :
    (r.contained harmless).cancels = false := by
  rw [contained]
  split
  · rfl
  · exact h

theorem isYes_contained (r : Response Bool) : (r.contained false).isYes = r.isYes := by
  cases h : r.fault with
  | none => rw [contained_of_no_fault h]
  | some fault =>
      rw [contained_of_fault h, isYes, isYes, h]
      rfl

end Response

def Handler.contained (h : Handler) : Handler :=
  { h with run := fun v => (h.run v).contained [] }

def BodyAction.contained (x : BodyAction) : BodyAction where
  accepts method := (x.accepts method).contained false
  start site :=
    let response := (x.start site).contained []
    { response with output := response.output.map Handler.contained }

def Registration.contained (r : Registration) : Registration :=
  { r with actions := r.actions.map BodyAction.contained }

def ActiveRule.contained (r : ActiveRule) : ActiveRule :=
  { r with registration := r.registration.contained }

/-- The rule with its callbacks contained, none if its registration fails. -/
def Rule.contained? (rule : Rule) : Option Rule :=
  rule.registration.toOption.map fun r => { rule with registration := .ok r.contained }

def containedRules (rules : List Rule) : List Rule :=
  rules.filterMap Rule.contained?

theorem BodyAction.given_contained (x : BodyAction) (site : BodyStart) :
    x.contained.given site = (x.given site).map Handler.contained := by
  have hyes : (x.contained.accepts site.method).isYes = (x.accepts site.method).isYes :=
    Response.isYes_contained _
  have hstart : (x.contained.start site).fault = none := Response.fault_contained _ _
  have houtput : (x.contained.start site).output =
      ((x.start site).contained []).output.map Handler.contained := rfl
  rw [given, given, keeps, keeps, hyes, hstart, houtput, Response.contained]
  cases (x.accepts site.method).isYes <;> cases (x.start site).fault <;> rfl

namespace Recast

def contained : Recast where
  rule := ActiveRule.contained
  action := BodyAction.contained
  handler := Handler.contained
  actions_rule _ := rfl
  isYes_action _ _ := Response.isYes_contained _
  given_action := BodyAction.given_contained
  kind_handler _ := rfl

theorem found_contained (c : Call) : (contained.call c).found = c.found := by
  cases c with
  | operation u method i r =>
      -- What a failed handler had reported is cut off, so nothing is left to compare.
      show (if ((r.handler.run ⟨u, method, i⟩).contained []).fault.isSome ||
          !r.rule.reports u then [] else
        ((r.handler.run ⟨u, method, i⟩).contained []).output.map (Finding.mk r.rule.place)) = _
      rw [Call.found]
      cases h : (r.handler.run ⟨u, method, i⟩).fault with
      | none =>
          rw [Response.contained_of_no_fault h, h]
      | some fault =>
          rw [Response.contained_of_fault h]
          exact ite_self _
  | _ => rfl

theorem fails_contained {c : Call} (h : ∀ id rule, c ≠ .registration id rule) :
    (contained.call c).fails = false := by
  cases c with
  | registration id rule => exact absurd rfl (h id rule)
  | predicate rule action method =>
      exact congrArg Option.isSome (Response.fault_contained (action.accepts method) false)
  | start rule action site =>
      exact congrArg Option.isSome (Response.fault_contained (action.start site) [])
  | operation u method i r =>
      exact congrArg Option.isSome (Response.fault_contained (r.handler.run ⟨u, method, i⟩) [])

theorem cancels_contained {c : Call} (h : c.cancels = false) :
    (contained.call c).cancels = false := by
  cases c with
  | registration id rule => rfl
  | predicate rule action method => exact Response.cancels_contained _ h
  | start rule action site => exact Response.cancels_contained _ h
  | operation u method i r => exact Response.cancels_contained _ h

end Recast

namespace Analyzer

theorem harvestBody_recast_contained (a : Analyzer) (u : CompilationUnit) (b : Body)
    (h : (a.harvestBody u b).effects.cancels = false) :
    ((a.recast .contained).harvestBody u b).items = (a.harvestBody u b).items ∧
      ((a.recast .contained).harvestBody u b).effects.faults = 0 ∧
      ((a.recast .contained).harvestBody u b).effects.cancels = false := by
  rw [harvestBody_eq_calls] at h
  have hcancels : ∀ c ∈ a.callsIn u b, c.cancels = false := by
    simpa [Effects.ofCalls, List.any_eq_false] using h
  rw [harvestBody_eq_calls, harvestBody_eq_calls, callsIn_recast fun _ _ => rfl,
    List.flatMap_map]
  refine ⟨?_, ?_, ?_⟩
  · simp only [Recast.found_contained]
    rfl
  · refine List.countP_eq_zero.2 (List.forall_mem_map.2 fun c hc => ?_)
    rw [Recast.fails_contained fun id rule heq =>
      a.registration_not_mem_callsIn id rule u b (heq ▸ hc)]
    exact Bool.false_ne_true
  · refine List.any_eq_false.2 (List.forall_mem_map.2 fun c hc => ?_)
    rw [Recast.cancels_contained (hcancels c hc)]
    exact Bool.false_ne_true

variable (o : Options) (rules : List Rule)

theorem activate_contained? (rule : Rule) :
    rule.contained?.toList.flatMap (fun rule => (activate o rule 0).items) =
      (activate o rule 0).items.map ActiveRule.contained := by
  obtain ⟨descriptors, registration⟩ := rule
  cases registration with
  | error fault =>
      rw [activate]
      cases descriptors with
      | nil => rfl
      | cons first rest =>
          simp only
          split <;> rfl
  | ok registration =>
      show (([_] : List Rule).flatMap fun rule => (activate o rule 0).items) = _
      rw [List.flatMap_singleton, activate, activate]
      cases descriptors with
      | nil => rfl
      | cons first rest =>
          simp only
          split <;> rfl

/-- The contained rules that take part are those that take part, contained. Their places may
differ, for absent rules do not count. -/
theorem unplaced_containedRules :
    (ofRules o (containedRules rules)).rules.map ActiveRule.unplaced =
      ((ofRules o rules).recast .contained).rules.map ActiveRule.unplaced := by
  have hcomm : ((ofRules o rules).recast .contained).rules.map ActiveRule.unplaced =
      ((ofRules o rules).rules.map ActiveRule.unplaced).map ActiveRule.contained := by
    rw [recast, List.map_map, List.map_map]
    rfl
  rw [hcomm, unplaced_ofRules, unplaced_ofRules, List.map_flatMap, containedRules,
    List.filterMap_eq_flatMap_toList, List.flatMap_assoc]
  exact List.flatMap_congr fun rule _ => activate_contained? o rule

theorem registrationFaults_containedRules :
    (ofRules o (containedRules rules)).registrationFaults = 0 := by
  rw [registrationFaults_ofRules, List.countP_eq_zero]
  intro c hc
  obtain ⟨rule, hrule, hc⟩ := List.mem_filterMap.1 hc
  obtain ⟨id, rfl⟩ := registrationCall?_eq_some hc
  obtain ⟨original, -, hrule⟩ := List.mem_filterMap.1 hrule
  obtain ⟨registration, -, rfl⟩ := Option.map_eq_some_iff.1 hrule
  exact Bool.false_ne_true

variable {o rules}

theorem harvestBody_containedRules {u : CompilationUnit} {b : Body}
    (h : ((ofRules o rules).harvestBody u b).effects.cancels = false) :
    ((ofRules o (containedRules rules)).harvestBody u b).items.map Finding.diagnostic =
        ((ofRules o rules).harvestBody u b).items.map Finding.diagnostic ∧
      ((ofRules o (containedRules rules)).harvestBody u b).effects.faults = 0 ∧
      ((ofRules o (containedRules rules)).harvestBody u b).effects.cancels = false ∧
      (ofRules o (containedRules rules)).skips u b = (ofRules o rules).skips u b := by
  obtain ⟨hdiagnostics, heffects, hskips⟩ :=
    harvestBody_congr (unplaced_containedRules o rules) rfl u b
  obtain ⟨hitems, hfaults, hcancels⟩ := (ofRules o rules).harvestBody_recast_contained u b h
  rw [hdiagnostics, heffects, hskips, hitems, skips_recast fun _ _ => rfl]
  exact ⟨rfl, hfaults, hcancels, rfl⟩

/-- The outcome for contained rules is the same, without the failures. -/
theorem analyze_containedRules {units : List CompilationUnit}
    (h : ∀ p ∈ bodiesOf units,
      ((ofRules o rules).harvestBody p.1 p.2).effects.cancels = false) :
    (ofRules o (containedRules rules)).analyze false units =
      { (ofRules o rules).analyze false units with faults := 0 } := by
  -- Each number of the outcome is a sum over the bodies, so it is enough to compare bodies.
  have hbodies := fun p hp => harvestBody_containedRules (h p hp)
  have hskips (n m : Nat) :
      ((bodiesOf units).map fun p =>
          if (ofRules o (containedRules rules)).skips p.1 p.2 then n else m) =
        (bodiesOf units).map fun p => if (ofRules o rules).skips p.1 p.2 then n else m :=
    List.map_congr_left fun p hp => by rw [(hbodies p hp).2.2.2]
  have hfaults : ((bodiesOf units).map fun p =>
      ((ofRules o (containedRules rules)).harvestBody p.1 p.2).effects.faults).sum = 0 :=
    List.sum_eq_zero_iff_forall_eq_nat.2 (List.forall_mem_map.2 fun p hp => (hbodies p hp).2.1)
  rw [analyze, analyze, run, run, outcome_runOver _ (.refl _) fun p hp => (hbodies p hp).2.2.1,
    outcome_runOver _ (.refl _) h, List.flatMap_congr fun p hp => (hbodies p hp).1, hskips, hskips,
    hfaults, registrationFaults_containedRules]

end Analyzer

/-! ## Counting failures -/

namespace Event

def isError (e : Event) : Bool :=
  e.level = .error

end Event

namespace Call

/-- The errors that a call logs, the last of them if it fails. -/
theorem filter_isError_events (c : Call) :
    c.events.filter Event.isError =
      c.logged.filter Event.isError ++ c.fault?.toList.map c.failure := by
  have hfailure : ∀ e ∈ c.fault?.toList.map c.failure, e.isError = true :=
    List.forall_mem_map.2 fun fault _ => by cases c <;> rfl
  rw [events, List.filter_append, List.filter_eq_self.2 hfailure]

end Call

namespace Analyzer

variable (o : Options) (rules : List Rule) (units : List CompilationUnit)

theorem errors_activate (rule : Rule) (place : Nat) :
    (activate o rule place).effects.events.filter Event.isError =
      (registrationCall? o rule).toList.flatMap fun c => c.events.filter Event.isError := by
  rw [activate, registrationCall?]
  cases rule.descriptors with
  | nil => rfl
  | cons first rest =>
      simp only
      split
      · cases hregistration : rule.registration <;>
          simp [Call.filter_isError_events, Call.logged, Call.fault?, Call.failure, hregistration,
            Event.isError, Event.level]
      · rfl

theorem errors_eventsOfRules :
    (eventsOfRules o rules).filter Event.isError =
      (rules.filterMap (registrationCall? o)).flatMap fun c => c.events.filter Event.isError := by
  rw [eventsOfRules, activateAll, Harvest.events_gather, List.filter_flatMap,
    List.filterMap_eq_flatMap_toList, List.flatMap_assoc]
  simp only [errors_activate]
  rw [← List.flatMap_map Prod.fst fun rule => (registrationCall? o rule).toList.flatMap fun c =>
    c.events.filter Event.isError, List.zipIdx_map_fst]

theorem errors_eventsOfRun (a : Analyzer) (mode : ExecutionMode)
    (h : ∀ p ∈ bodiesOf units, (a.harvestBody p.1 p.2).effects.cancels = false) :
    (a.eventsOfRun mode units (a.run false units)).filter Event.isError =
      ((bodiesOf units).flatMap fun p => a.callsIn p.1 p.2).flatMap fun c =>
        c.events.filter Event.isError := by
  have hopening (u : CompilationUnit) (b : Body) : (a.opening u b).filter Event.isError = [] := by
    rw [opening]
    cases u.symbols.method? b.method with
    | none => rfl
    | some method =>
        simp only
        split <;> rfl
  have hclosing (outcome : Outcome) :
      (Run.closingEvents outcome).filter Event.isError = [] := by
    rw [Run.closingEvents]
    split <;> rfl
  have hanalysis (n k m : Nat) (concurrent : Bool) :
      (Event.analysisOpened n k m concurrent).isError = false := rfl
  rw [eventsOfRun, List.cons_append, List.filter_cons, hanalysis, if_neg Bool.false_ne_true,
    List.filter_append, hclosing, List.append_nil, a.events_run h, List.filter_flatMap,
    List.flatMap_assoc]
  refine List.flatMap_congr fun p _ => ?_
  rw [List.filter_append, hopening, List.nil_append, harvestBody_eq_calls]
  exact List.filter_flatMap

end Analyzer

open Analyzer

namespace Sample

/-- An action whose predicate fails. -/
def undecided : BodyAction :=
  ⟨fun _ => ⟨true, some (.text "no"), false, []⟩, fun _ => .ofOutput [literalHandler]⟩

/-- An action that fails after it has registered a handler. -/
def unstarted : BodyAction :=
  ⟨fun _ => .ofOutput true, fun _ => ⟨[literalHandler], some .unprintable, false, []⟩⟩

/-- Rules that fail in all four ways. -/
def failingRules : List Rule :=
  [⟨[descriptor], .error .unprintable⟩, rule,
    ⟨[descriptor], .ok ⟨[undecided, unstarted], true, .analyzeAndReport⟩⟩]

theorem harvestBody_failingRules :
    ((ofRules .default failingRules).harvestBody unit body).items = [⟨1, diagnostic⟩] ∧
      ((ofRules .default failingRules).harvestBody unit body).effects.cancels = false := by
  rw [harvestBody_eq_calls, callsIn_eq, visits_eq]
  exact ⟨rfl, rfl⟩

theorem countP_callsOf_failingRules :
    (callsOf .default failingRules [unit]).countP Call.fails = 4 := by
  have hbodies : bodiesOf [unit] = [(unit, body)] := rfl
  rw [callsOf, hbodies, List.flatMap_singleton, callsIn_eq, visits_eq]
  rfl

end Sample

/-- If nothing asks for cancellation, failures change the outcome only in that they are
counted: with contained rules it is the same. They are counted once for each call that fails,
and each of these calls logs exactly one error, besides those that its callback logs itself. -/
theorem analyze_contained (o : Options) (rules : List Rule) (units : List CompilationUnit)
    (mode : ExecutionMode) (h : ((ofRules o rules).run false units).stopping = false) :
    let a := ofRules o rules
    let calls := callsOf o rules units
    (ofRules o (containedRules rules)).analyze false units =
        { a.analyze false units with faults := 0 } ∧
      (a.analyze false units).faults = calls.countP Call.fails ∧
      (eventsOfRules o rules ++ a.eventsOfRun mode units (a.run false units)).filter
          Event.isError =
        calls.flatMap fun c =>
          c.logged.filter Event.isError ++ c.fault?.toList.map c.failure := by
  have hcancels := (ofRules o rules).stopping_run_eq_false_iff.1 h
  refine ⟨analyze_containedRules hcancels, faults_analyze o rules units hcancels, ?_⟩
  simp only [← Call.filter_isError_events]
  rw [List.filter_append, errors_eventsOfRules, errors_eventsOfRun units _ mode hcancels, callsOf,
    List.flatMap_append]

theorem analyze_contained_sample :
    ((ofRules .default Sample.failingRules).run false [Sample.unit]).stopping = false ∧
      ((ofRules .default Sample.failingRules).analyze false [Sample.unit]).faults = 4 ∧
      ((ofRules .default (containedRules Sample.failingRules)).analyze false
        [Sample.unit]).faults = 0 ∧
      ((ofRules .default (containedRules Sample.failingRules)).analyze false
        [Sample.unit]).diagnostics = [Sample.diagnostic] := by
  obtain ⟨hitems, hcancels⟩ := Sample.harvestBody_failingRules
  have hstopping := Sample.stopping_run (fun _ => List.mem_singleton.1) hcancels
  obtain ⟨hcontained, hfaults, -⟩ := analyze_contained .default Sample.failingRules [Sample.unit]
    .sequential hstopping
  refine ⟨hstopping, ?_, ?_, ?_⟩
  · exact hfaults.trans Sample.countP_callsOf_failingRules
  · rw [hcontained]
  · rw [hcontained]
    show ((ofRules .default Sample.failingRules).run false [Sample.unit]).sink.sorted.map _ = _
    rw [Sample.sorted_run hcancels, hitems]
    rfl

end OpLint
