import OpLint.Proofs.Analysis.AnyOrder
import OpLint.Proofs.Analysis.Interference

/-!
# Code that a generator made

The policy of a rule is looked at in three places: a body is left out if no rule may look at
its unit, the actions of a rule are asked only if this one may, and what its handlers report
is cut off again if it does not count. The three agree. For each rule, what happens in the
bodies of a generated unit is what would happen without policies, or nothing, or the same
with the reports dropped.

The policies act through `analyzes` and `reports` alone, and for a unit that no generator
made both hold, whatever the policies. So analyses under several policies are compared body
by body: there they make the same calls, or one of them makes none.
-/

namespace OpLint

/-! ## What a rule would do without policies -/

/-- What a handler reported without failing, whether it counts or not. -/
def Call.reported : Call → List Diagnostic
  | operation u method i r =>
    let response := r.handler.run ⟨u, method, i⟩
    if response.fault.isSome then [] else response.output
  | _ => []

namespace ActiveRule

variable (r : ActiveRule)

def policy : GeneratedCodePolicy :=
  r.registration.generatedCode

def handlers (site : BodyStart) : List Registered :=
  r.registration.actions.flatMap fun action => (action.given site).map (Registered.mk r)

/-- The calls that the rule wants for a body. Its policy has no say here. -/
def callsIn (u : CompilationUnit) (b : Body) : List Call :=
  match u.symbols.method? b.method with
  | none => []
  | some method =>
    let site : BodyStart := ⟨u, b, method⟩
    r.registration.actions.flatMap (·.calls r site) ++
      (u.forest.descendants b.root).flatMap fun i =>
        ((r.handlers site).filter fun x => u.forest.kind? i = some x.handler.kind).map
          (.operation u method i ·)

theorem analyzes_eq (u : CompilationUnit) :
    r.analyzes u = !(u.generated && r.policy = .skip) := by
  rw [analyzes, policy, GeneratedCodePolicy.analyzes]
  cases u.generated <;> simp

theorem reports_eq (u : CompilationUnit) :
    r.reports u = !(u.generated && r.policy ≠ .analyzeAndReport) := by
  rw [reports, policy, GeneratedCodePolicy.reports]
  cases u.generated <;> simp

theorem found_of_mem_callsIn {r : ActiveRule} {u : CompilationUnit} {b : Body} {c : Call}
    (h : c ∈ r.callsIn u b) :
    c.found = if r.reports u then c.reported.map (Finding.mk r.place) else [] := by
  rw [callsIn] at h
  split at h
  · cases h
  · rcases List.mem_append.1 h with h | h
    · obtain ⟨action, -, h⟩ := List.mem_flatMap.1 h
      obtain rfl | rfl := BodyAction.mem_calls h <;> exact (ite_self _).symm
    · obtain ⟨i, -, h⟩ := List.mem_flatMap.1 h
      obtain ⟨x, hx, rfl⟩ := List.mem_map.1 h
      obtain ⟨action, -, hx⟩ := List.mem_flatMap.1 (List.mem_of_mem_filter hx)
      obtain ⟨handler, -, rfl⟩ := List.mem_map.1 hx
      rw [Call.found, Call.reported]
      cases r.reports u <;> cases (handler.run _).fault <;> rfl

/-- A rule finds all that it reports, or nothing. -/
theorem flatMap_found_callsIn (u : CompilationUnit) (b : Body) :
    (r.callsIn u b).flatMap Call.found =
      if r.reports u then ((r.callsIn u b).flatMap Call.reported).map (Finding.mk r.place)
      else [] := by
  rw [List.flatMap_congr fun c => found_of_mem_callsIn]
  split
  · rw [List.map_flatMap]
  · exact List.flatMap_eq_nil_iff.2 fun _ _ => rfl

end ActiveRule

namespace Analyzer

variable (a : Analyzer)

/-- The calls of a rule alone: those that it wants, or none. -/
theorem callsIn_only (r : ActiveRule) (u : CompilationUnit) (b : Body) :
    (a.only [r]).callsIn u b = if r.analyzes u then r.callsIn u b else [] := by
  rw [callsIn, ActiveRule.callsIn]
  cases u.symbols.method? b.method with
  | none => exact (ite_self _).symm
  | some method =>
      cases h : r.analyzes u with
      | false => exact calls_eq_nil _ (by simp [only, h])
      | true =>
          have hrules : (a.only [r]).rules.filter (·.analyzes u) = [r] := by simp [only, h]
          simp only [calls, actionCalls, visits, registered_eq, hrules, List.flatMap_singleton,
            List.map_flatMap, List.map_map]
          rfl

/-- The findings of a rule alone: all that it reports, or none. -/
theorem diagnostics_harvestBody_only (r : ActiveRule) (u : CompilationUnit) (b : Body) :
    ((a.only [r]).harvestBody u b).items.map Finding.diagnostic =
      if r.reports u then ((r.callsIn u b).flatMap Call.reported).map (Diagnostic.adjust a.options)
      else [] := by
  have hreports : r.reports u = true → r.analyzes u = true := by
    rw [r.reports_eq, r.analyzes_eq]
    cases u.generated <;> cases r.policy <;> simp
  rw [harvestBody_eq_calls, callsIn_only]
  split
  · rw [r.flatMap_found_callsIn]
    split
    · simp only [List.map_map]
      rfl
    · rfl
  · next hanalyzes =>
      rw [if_neg fun h => hanalyzes (hreports h)]
      rfl

/-- Up to the order, the calls for a body are those of each rule. -/
theorem perm_callsIn (u : CompilationUnit) (b : Body) :
    (a.callsIn u b).Perm
      (a.rules.flatMap fun r => if r.analyzes u then r.callsIn u b else []) := by
  have hrules := perm_callsIn_flatMap a (fun r => [r]) a.rules u b
  rw [List.flatMap_singleton'] at hrules
  simp only [callsIn_only] at hrules
  exact hrules

theorem exists_rule_of_mem_callsIn {a : Analyzer} {u : CompilationUnit} {b : Body} {c : Call}
    (h : c ∈ a.callsIn u b) : ∃ r ∈ a.rules, c ∈ r.callsIn u b := by
  obtain ⟨r, hr, hc⟩ := List.mem_flatMap.1 ((a.perm_callsIn u b).mem_iff.1 h)
  refine ⟨r, hr, ?_⟩
  split at hc
  · exact hc
  · cases hc

/-! ## Each rule among all -/

variable {o : Options} {rules : List Rule} {r : ActiveRule}

theorem atPlace_of_mem_rules (h : r ∈ (ofRules o rules).rules) :
    (ofRules o rules).atPlace r.place = (ofRules o rules).only [r] := by
  obtain ⟨rule, hmem, hr⟩ := exists_of_mem_rules h
  have hrules := rules_atPlace o rules hmem
  rw [eq_of_mem_activate hr] at hrules
  exact congrArg (ofRules o rules).only hrules

/-- Among all calls for a body, those of a rule are those that it wants, or none. -/
theorem callsIn_of_mem_rules (h : r ∈ (ofRules o rules).rules) (u : CompilationUnit) (b : Body) :
    (((ofRules o rules).callsIn u b).filter fun c => c.place? = some r.place) =
      if r.analyzes u then r.callsIn u b else [] := by
  rw [← callsIn_atPlace, atPlace_of_mem_rules h, callsIn_only]

/-- Among all findings in a body, those of a rule are all that it reports, or none. -/
theorem items_of_mem_rules (h : r ∈ (ofRules o rules).rules) (u : CompilationUnit) (b : Body) :
    (((ofRules o rules).harvestBody u b).items.filter fun f => f.rule = r.place).map
        Finding.diagnostic =
      if r.reports u then ((r.callsIn u b).flatMap Call.reported).map (Diagnostic.adjust o)
      else [] := by
  rw [← items_harvestBody_atPlace, atPlace_of_mem_rules h]
  exact diagnostics_harvestBody_only _ r u b

/-- In a run, what a rule finds are its reports in all bodies of units where they count. -/
theorem sorted_run_of_mem_rules {units : List CompilationUnit}
    (hcancels : ∀ p ∈ bodiesOf units,
      ((ofRules o rules).harvestBody p.1 p.2).effects.cancels = false)
    (h : r ∈ (ofRules o rules).rules) :
    (((ofRules o rules).run false units).sink.sorted.filter fun f => f.rule = r.place).map
        Finding.diagnostic =
      (bodiesOf units).flatMap fun p =>
        if p.1.generated && r.policy ≠ .analyzeAndReport then []
        else ((r.callsIn p.1 p.2).flatMap Call.reported).map (Diagnostic.adjust o) := by
  obtain ⟨hsorted, -⟩ := (ofRules o rules).runOver_eq (.refl (workItems units)) hcancels
  rw [run, hsorted, List.filter_flatMap, List.map_flatMap]
  refine List.flatMap_congr fun p _ => ?_
  rw [items_of_mem_rules h, r.reports_eq]
  cases p.1.generated && decide (r.policy ≠ .analyzeAndReport) <;> rfl

/-- The failures in a body are those of the rules that may look at it. -/
theorem faults_harvestBody (a : Analyzer) (u : CompilationUnit) (b : Body) :
    (a.harvestBody u b).effects.faults = (a.rules.map fun r =>
      if u.generated && r.policy = .skip then 0 else (r.callsIn u b).countP Call.fails).sum := by
  rw [harvestBody_eq_calls]
  show (a.callsIn u b).countP Call.fails = _
  rw [(a.perm_callsIn u b).countP_eq, List.countP_flatMap]
  refine congrArg List.sum (List.map_congr_left fun r _ => ?_)
  rw [Function.comp, r.analyzes_eq]
  cases u.generated && decide (r.policy = .skip) <;> rfl

end Analyzer

/-! ## One policy for all rules -/

namespace ActiveRule

def under (p : GeneratedCodePolicy) (r : ActiveRule) : ActiveRule :=
  { r with registration := { r.registration with generatedCode := p } }

theorem actions_under (p : GeneratedCodePolicy) (r : ActiveRule) :
    (r.under p).registration.actions = r.registration.actions := rfl

end ActiveRule

/-- Gives all rules one policy. -/
def Recast.under (p : GeneratedCodePolicy) : Recast :=
  .ofRule (.under p) (ActiveRule.actions_under p)

namespace Analyzer

variable (a : Analyzer) (p : GeneratedCodePolicy)

/-- The analyzer whose options choose the policy. -/
def under : Analyzer :=
  { a.recast (.under p) with options := { a.options with generatedCode := some p } }

theorem rules_under : (a.under p).rules = a.rules.map (·.under p) := rfl

variable {a p} {u : CompilationUnit}

section

variable (h : ∀ r ∈ a.rules, (r.under p).analyzes u = r.analyzes u)

include h

/-- Where the policy lets the same rules look at the unit, it does not change the calls. -/
theorem callsIn_under (b : Body) :
    (a.under p).callsIn u b = (a.callsIn u b).map (Recast.under p).call :=
  callsIn_recast h b

theorem skips_under (b : Body) : (a.under p).skips u b = a.skips u b :=
  skips_recast h b

theorem effects_under (b : Body) :
    ((a.under p).harvestBody u b).effects = (a.harvestBody u b).effects := by
  rw [harvestBody_eq_calls, harvestBody_eq_calls, callsIn_under h]
  exact Effects.ofCalls_map (fun c => by cases c <;> rfl) (fun c => by cases c <;> rfl)
    (fun c => by cases c <;> rfl) _

end

/-! ### Units that no generator made -/

theorem analyzes_under_of_not_generated (hu : u.generated = false) (r : ActiveRule) :
    (r.under p).analyzes u = r.analyzes u := by
  rw [ActiveRule.analyzes, ActiveRule.analyzes, hu]
  rfl

/-- In a unit that no generator made the policy has no say. -/
theorem harvestBody_under_of_not_generated (hu : u.generated = false) (b : Body) :
    (a.under p).harvestBody u b = a.harvestBody u b := by
  have hanalyzes : ∀ r ∈ a.rules, (r.under p).analyzes u = r.analyzes u :=
    fun r _ => analyzes_under_of_not_generated hu r
  have hfound (c : Call) (hc : c ∈ a.callsIn u b) :
      ((Recast.under p).call c).found = c.found := by
    cases c with
    | operation u' method i x =>
        obtain ⟨rfl, -⟩ := of_operation_mem_callsIn hc
        rw [Recast.call, Call.found, Call.found, ActiveRule.reports, ActiveRule.reports, hu]
        rfl
    | _ => rfl
  have hitems : ((a.under p).harvestBody u b).items = (a.harvestBody u b).items := by
    rw [harvestBody_eq_calls, harvestBody_eq_calls, callsIn_under hanalyzes, List.flatMap_map,
      List.flatMap_congr hfound]
    rfl
  exact congrArg₂ Harvest.mk hitems (effects_under hanalyzes b)

theorem alone_under_of_not_generated (hu : u.generated = false) (b : Body) :
    (a.under p).alone u b = a.alone u b := by
  rw [alone_eq, alone_eq, harvestBody_under_of_not_generated hu,
    skips_under fun r _ => analyzes_under_of_not_generated hu r]

/-! ### Units that a generator made -/

theorem under_under (a : Analyzer) (p q : GeneratedCodePolicy) :
    (a.under q).under p = a.under p := by
  simp only [under, recast, List.map_map]
  rfl

theorem items_under_of_not_reports (hu : u.generated = true) (hp : p.reports = false) (b : Body) :
    ((a.under p).harvestBody u b).items = [] := by
  rw [harvestBody_eq_calls]
  refine List.map_eq_nil_iff.2 (List.flatMap_eq_nil_iff.2 fun c hc => ?_)
  obtain ⟨r, hr, hc⟩ := exists_rule_of_mem_callsIn hc
  rw [rules_under] at hr
  obtain ⟨r, -, rfl⟩ := List.mem_map.1 hr
  have hreports : (r.under p).reports u = false := by
    rw [ActiveRule.reports, hu]
    exact hp
  rw [ActiveRule.found_of_mem_callsIn hc, hreports]
  rfl

theorem analyzes_under_of_analyzes (hp : p.analyzes = true) (r : ActiveRule)
    (u : CompilationUnit) : (r.under p).analyzes u = true := by
  rw [ActiveRule.analyzes]
  exact (congrArg _ hp).trans (Bool.or_true _)

/-- What is dropped under one policy and counts under the other happens under both. -/
theorem harvestBody_under_analyze (a : Analyzer) (u : CompilationUnit) (b : Body) :
    ((a.under .analyze).harvestBody u b).items =
        (if !u.generated then ((a.under .analyzeAndReport).harvestBody u b).items else []) ∧
      ((a.under .analyze).harvestBody u b).effects =
        ((a.under .analyzeAndReport).harvestBody u b).effects ∧
      (a.under .analyze).skips u b = (a.under .analyzeAndReport).skips u b := by
  have hanalyzes : ∀ r ∈ (a.under .analyzeAndReport).rules,
      (r.under .analyze).analyzes u = r.analyzes u := by
    intro r hr
    rw [rules_under] at hr
    obtain ⟨r, -, rfl⟩ := List.mem_map.1 hr
    rw [analyzes_under_of_analyzes rfl, analyzes_under_of_analyzes rfl]
  -- The second policy given replaces the first, so both sides start from one analyzer.
  rw [← under_under a .analyze .analyzeAndReport]
  refine ⟨?_, effects_under hanalyzes b, skips_under hanalyzes b⟩
  cases hu : u.generated with
  | false => rw [harvestBody_under_of_not_generated hu]; rfl
  | true => exact items_under_of_not_reports hu rfl b

theorem skips_under_skip (a : Analyzer) (q : GeneratedCodePolicy) (u : CompilationUnit)
    (b : Body) :
    (a.under .skip).skips u b = if !u.generated then (a.under q).skips u b else true := by
  cases hu : u.generated with
  | false =>
      rw [← under_under a .skip q]
      exact skips_under (fun r _ => analyzes_under_of_not_generated hu r) b
  | true =>
      have hany : (a.under .skip).rules.any (·.analyzes u) = false := by
        refine List.any_eq_false.2 fun r hr => ?_
        rw [rules_under] at hr
        obtain ⟨r, -, rfl⟩ := List.mem_map.1 hr
        rw [ActiveRule.analyzes, hu]
        exact Bool.false_ne_true
      rw [skips, hany, hu]
      exact Bool.or_true _

theorem harvestBody_under_skip (a : Analyzer) (q : GeneratedCodePolicy) (u : CompilationUnit)
    (b : Body) :
    (a.under .skip).harvestBody u b = if !u.generated then (a.under q).harvestBody u b
      else .none := by
  cases hu : u.generated with
  | false =>
      rw [← under_under a .skip q]
      exact harvestBody_under_of_not_generated hu b
  | true =>
      refine Run.harvestBody_of_skips ?_
      rw [skips_under_skip a q, hu]
      rfl

/-! ### Whole runs -/

variable {units : List CompilationUnit}

theorem filter_bodiesOf (f : CompilationUnit → Bool) (units : List CompilationUnit) :
    ((bodiesOf units).filter fun p => f p.1) = bodiesOf (units.filter f) := by
  rw [bodiesOf, bodiesOf, List.filter_flatMap, ← flatMap_ite_nil]
  refine List.flatMap_congr fun u _ => ?_
  rw [List.filter_map]
  cases h : f u <;> simp [Function.comp_def, h]

theorem sum_map_ite_zero {α : Type} (p : α → Bool) (f : α → Nat) (as : List α) :
    (as.map fun a => if p a then f a else 0).sum = ((as.filter p).map f).sum := by
  rw [List.sum_map_ite]
  simp

theorem sum_map_ite_one {α : Type} (p : α → Bool) (as : List α) :
    (as.map fun a => if p a then 1 else 0).sum = as.countP p := by
  rw [sum_map_ite_zero, List.countP_eq_length_filter]
  simp

/-- A body of a known method is left out if no rule's policy lets it look at the unit. -/
theorem skips_eq_of_known {b : Body} (h : (u.symbols.method? b.method).isSome = true) :
    a.skips u b = (u.generated && a.rules.all fun r => r.policy = .skip) := by
  have hnone : (u.symbols.method? b.method).isNone = false := by
    rw [← Option.not_isSome, h]
    rfl
  rw [skips, hnone, Bool.false_or]
  cases hu : u.generated with
  | false => rfl
  | true => simp [ActiveRule.analyzes_eq, hu, List.not_any_eq_all_not]

theorem analyze_under_analyze
    (h : ∀ p ∈ bodiesOf units, ((a.under .analyze).harvestBody p.1 p.2).effects.cancels = false) :
    (a.under .analyze).analyze false units =
      { (a.under .analyzeAndReport).analyze false units with
        diagnostics := (bodiesOf (units.filter fun u => !u.generated)).flatMap fun p =>
          ((a.under .analyzeAndReport).alone p.1 p.2).diagnostics } := by
  have hreporting := h
  simp only [(harvestBody_under_analyze a _ _).2.1] at hreporting
  have hdiagnostics : ((bodiesOf units).flatMap fun p =>
        ((a.under .analyze).harvestBody p.1 p.2).items.map Finding.diagnostic) =
      (bodiesOf (units.filter fun u => !u.generated)).flatMap fun p =>
        ((a.under .analyzeAndReport).alone p.1 p.2).diagnostics := by
    rw [← filter_bodiesOf, ← flatMap_ite_nil]
    refine List.flatMap_congr fun p _ => ?_
    rw [(harvestBody_under_analyze a p.1 p.2).1, alone_eq]
    split <;> rfl
  rw [analyze, analyze, run, run, outcome_runOver _ (.refl _) h,
    outcome_runOver _ (.refl _) hreporting, hdiagnostics]
  simp only [(harvestBody_under_analyze a _ _).2]
  rfl

theorem analyze_under_skip (q : GeneratedCodePolicy)
    (hknown : ∀ p ∈ bodiesOf units, (p.1.symbols.method? p.2.method).isSome = true)
    (h : ∀ p ∈ bodiesOf units, ((a.under q).harvestBody p.1 p.2).effects.cancels = false) :
    (a.under .skip).analyze false units =
      { (a.under q).analyze false (units.filter fun u => !u.generated) with
        skipped := (bodiesOf (units.filter fun u => u.generated)).length } := by
  have hskip : ∀ p ∈ bodiesOf units,
      ((a.under .skip).harvestBody p.1 p.2).effects.cancels = false := by
    intro p hp
    rw [harvestBody_under_skip a q]
    split
    · exact h p hp
    · rfl
  have hreporting : ∀ p ∈ bodiesOf (units.filter fun u => !u.generated),
      ((a.under q).harvestBody p.1 p.2).effects.cancels = false := by
    rw [← filter_bodiesOf]
    exact fun p hp => h p (List.mem_of_mem_filter hp)
  -- Every part of the outcome is collected body by body, and but for the number of skipped
  -- bodies those of generated units give nothing to it.
  have hdiagnostics : ((bodiesOf units).flatMap fun p =>
        ((a.under .skip).harvestBody p.1 p.2).items.map Finding.diagnostic) =
      (bodiesOf (units.filter fun u => !u.generated)).flatMap fun p =>
        ((a.under q).harvestBody p.1 p.2).items.map Finding.diagnostic := by
    rw [← filter_bodiesOf, ← flatMap_ite_nil]
    refine List.flatMap_congr fun p _ => ?_
    rw [harvestBody_under_skip a q]
    split <;> rfl
  have hanalyzed : ((bodiesOf units).map fun p =>
        if (a.under .skip).skips p.1 p.2 then 0 else 1).sum =
      ((bodiesOf (units.filter fun u => !u.generated)).map fun p =>
        if (a.under q).skips p.1 p.2 then 0 else 1).sum := by
    rw [← filter_bodiesOf, ← sum_map_ite_zero]
    refine congrArg List.sum (List.map_congr_left fun p _ => ?_)
    rw [skips_under_skip a q]
    split <;> rfl
  have hall : ((a.under .skip).rules.all fun r => r.policy = .skip) = true :=
    List.all_eq_true.2 (List.forall_mem_map.2 fun r _ => rfl)
  have hskipped : ((bodiesOf units).map fun p =>
        if (a.under .skip).skips p.1 p.2 then 1 else 0).sum =
      (bodiesOf (units.filter fun u => u.generated)).length := by
    rw [← filter_bodiesOf, ← List.countP_eq_length_filter, ← sum_map_ite_one]
    refine congrArg List.sum (List.map_congr_left fun p hp => ?_)
    rw [skips_eq_of_known (hknown p hp), hall, Bool.and_true]
  have hfaults : ((bodiesOf units).map fun p =>
        ((a.under .skip).harvestBody p.1 p.2).effects.faults).sum =
      ((bodiesOf (units.filter fun u => !u.generated)).map fun p =>
        ((a.under q).harvestBody p.1 p.2).effects.faults).sum := by
    rw [← filter_bodiesOf, ← sum_map_ite_zero]
    refine congrArg List.sum (List.map_congr_left fun p _ => ?_)
    rw [harvestBody_under_skip a q]
    split <;> rfl
  rw [analyze, analyze, run, run, outcome_runOver _ (.refl _) hskip,
    outcome_runOver _ (.refl _) hreporting, hdiagnostics, hanalyzed, hskipped, hfaults]
  rfl

/-! ### Options that choose the policy -/

theorem items_activate_overriding (o : Options) (p : GeneratedCodePolicy) (rule : Rule)
    (place : Nat) :
    (activate { o with generatedCode := some p } rule place).items =
      (activate o rule place).items.map (·.under p) := by
  obtain ⟨descriptors, registration⟩ := rule
  rw [activate, activate]
  cases descriptors with
  | nil => rfl
  | cons first rest =>
      have henabled : (first :: rest).any ({ o with generatedCode := some p } : Options).isEnabled =
        (first :: rest).any o.isEnabled := rfl
      simp only [henabled]
      split
      · cases registration <;> rfl
      · rfl

theorem ofRules_overriding (o : Options) (p : GeneratedCodePolicy) (rules : List Rule) :
    ofRules { o with generatedCode := some p } rules = (ofRules o rules).under p := by
  have hrules : (ofRules { o with generatedCode := some p } rules).rules =
      (ofRules o rules).rules.map (·.under p) := by
    rw [rules_ofRules, rules_ofRules, List.map_flatMap]
    exact List.flatMap_congr fun q _ => items_activate_overriding o p q.1 q.2
  have hfaults : (ofRules { o with generatedCode := some p } rules).registrationFaults =
      (ofRules o rules).registrationFaults := by
    rw [registrationFaults_ofRules, registrationFaults_ofRules]
    rfl
  rw [under, recast]
  show _ = (⟨(ofRules o rules).rules.map (·.under p), _, (ofRules o rules).registrationFaults⟩ :
    Analyzer)
  rw [← hrules, ← hfaults]
  rfl

end Analyzer

/-- The rule, but for the policy that it declares. -/
def Rule.unpoliced (rule : Rule) : Rule :=
  { rule with
    registration := rule.registration.map fun r => { r with generatedCode := .analyzeAndReport } }

namespace Analyzer

theorem ofRules_unpoliced (o : Options) (p : GeneratedCodePolicy) (rules : List Rule) :
    ofRules { o with generatedCode := some p } (rules.map Rule.unpoliced) =
      ofRules { o with generatedCode := some p } rules := by
  have hactivate (rule : Rule) (place : Nat) :
      activate { o with generatedCode := some p } rule.unpoliced place =
        activate { o with generatedCode := some p } rule place := by
    obtain ⟨descriptors, registration⟩ := rule
    rw [activate, activate]
    cases descriptors <;> cases registration <;> rfl
  have hall : activateAll { o with generatedCode := some p } (rules.map Rule.unpoliced) =
      activateAll { o with generatedCode := some p } rules := by
    rw [activateAll, List.zipIdx_map, Harvest.gather_map]
    exact Harvest.gather_congr fun q _ => hactivate q.1 q.2
  rw [ofRules, ofRules, hall]

/-- Nothing that is declared or chosen about generated code matters elsewhere. -/
theorem alone_congr_policies {o : Options} {rules rules' : List Rule}
    (hrules : rules'.map Rule.unpoliced = rules.map Rule.unpoliced)
    (override : Option GeneratedCodePolicy) (hu : u.generated = false) (b : Body) :
    (ofRules { o with generatedCode := override } rules').alone u b =
      (ofRules o rules).alone u b := by
  -- An override hides both the declarations and the other override.
  have hopen : (ofRules { o with generatedCode := override } rules').under .analyzeAndReport =
      (ofRules o rules).under .analyzeAndReport := by
    rw [← ofRules_overriding, ← ofRules_overriding, ← ofRules_unpoliced _ _ rules,
      ← ofRules_unpoliced _ _ rules', hrules]
  rw [← alone_under_of_not_generated hu, hopen, alone_under_of_not_generated hu]

end Analyzer

open Analyzer

namespace Sample

def generatedUnit : CompilationUnit := { unit with generated := true }

/-- Options that choose a policy. -/
def policed (p : GeneratedCodePolicy) : Options := { Options.default with generatedCode := some p }

/-- The sample rule as it takes part under them. -/
def policedRule (p : GeneratedCodePolicy) : ActiveRule :=
  ⟨0, "S1", { registration with generatedCode := p }⟩

/-- The calls of the sample rule in the body, whoever made the unit. -/
def policedCalls (p : GeneratedCodePolicy) (u : CompilationUnit) : List Call :=
  [.predicate (policedRule p) action method, .start (policedRule p) action ⟨u, body, method⟩,
    .operation u method 1 ⟨policedRule p, returnHandler⟩,
    .operation u method 0 ⟨policedRule p, literalHandler⟩]

theorem callsIn_policedRule (p : GeneratedCodePolicy) (generated : Bool) :
    (policedRule p).callsIn { unit with generated } body =
      policedCalls p { unit with generated } := by
  have hmethod : { unit with generated }.symbols.method? body.method = some method := rfl
  have hdescendants : { unit with generated }.forest.descendants body.root = [1, 0] :=
    descendants_unit
  rw [ActiveRule.callsIn, hmethod]
  dsimp only
  rw [hdescendants]
  rfl

theorem stopping_run_policed (p : GeneratedCodePolicy) :
    ((ofRules (policed p) [rule]).run false [unit, generatedUnit]).stopping = false := by
  have hcalm (u : CompilationUnit) : (policedCalls p u).any Call.cancels = false := rfl
  refine (stopping_run_eq_false_iff _).2 fun q hq => ?_
  rw [harvestBody_eq_calls]
  refine List.any_eq_false.2 fun c hc => ?_
  obtain ⟨r, hr, hc⟩ := exists_rule_of_mem_callsIn hc
  obtain rfl : r = policedRule p := List.mem_singleton.1 hr
  obtain rfl | rfl := List.mem_pair.1 hq
  · exact List.any_eq_false.1 (hcalm unit) c (callsIn_policedRule p false ▸ hc)
  · exact List.any_eq_false.1 (hcalm generatedUnit) c (callsIn_policedRule p true ▸ hc)

end Sample

/-- The policy that counts for a rule is that of the options or, if they choose none, its own.
The rules that take part are those that are enabled and were registered. In a generated unit
the policy decides which of the rule's callbacks are called, all or none, and with
them which failures count; whether the reports are found; and, if no rule may look there,
that the body is left out. Other units are analyzed alike under all policies. So for the three
overrides the outcomes differ in what is said here, and in nothing else. -/
theorem analyze_generated (o : Options) (rules : List Rule) (units : List CompilationUnit)
    (hknown : ∀ p ∈ bodiesOf units, (p.1.symbols.method? p.2.method).isSome = true)
    (hstopping : ((ofRules o rules).run false units).stopping = false) :
    let a := ofRules o rules
    let run := a.run false units
    let outcome := a.analyze false units
    let under := fun policy => ofRules { o with generatedCode := some policy } rules
    let ordinary := units.filter fun u => !u.generated
    let found := fun p : CompilationUnit × Body =>
      ((under .analyzeAndReport).alone p.1 p.2).diagnostics
    (∀ r ∈ a.rules, ∃ rule registration, rules[r.place]? = some rule ∧
      rule.descriptors.any o.isEnabled = true ∧ rule.registration = .ok registration ∧
        r.registration.actions = registration.actions ∧
        r.policy = o.generatedCode.getD registration.generatedCode) ∧
    (∀ place rule registration, rules[place]? = some rule →
      rule.descriptors.any o.isEnabled = true → rule.registration = .ok registration →
        ∃ r ∈ a.rules, r.place = place ∧ r.registration.actions = registration.actions ∧
          r.policy = o.generatedCode.getD registration.generatedCode) ∧
    (∀ r ∈ a.rules, ∀ u b, ((a.callsIn u b).filter fun c => c.place? = some r.place) =
      if u.generated && r.policy = .skip then [] else r.callsIn u b) ∧
    (∀ r ∈ a.rules, (run.sink.sorted.filter fun f => f.rule = r.place).map Finding.diagnostic =
      (bodiesOf units).flatMap fun p =>
        if p.1.generated && r.policy ≠ .analyzeAndReport then []
        else ((r.callsIn p.1 p.2).flatMap Call.reported).map (Diagnostic.adjust o)) ∧
    outcome.diagnostics = run.sink.sorted.map Finding.diagnostic ∧
    outcome.faults = a.registrationFaults +
      ((bodiesOf units).map fun p => (a.rules.map fun r =>
        if p.1.generated && r.policy = .skip then 0
        else (r.callsIn p.1 p.2).countP Call.fails).sum).sum ∧
    outcome.skipped =
      ((bodiesOf units).countP fun p => p.1.generated && a.rules.all fun r => r.policy = .skip) ∧
    outcome.analyzed + outcome.skipped = (bodiesOf units).length ∧
    (∀ override rules', rules'.map Rule.unpoliced = rules.map Rule.unpoliced →
      ∀ u b, u.generated = false →
        (ofRules { o with generatedCode := override } rules').alone u b = a.alone u b) ∧
    (((under .analyze).run false units).stopping = false →
      ((under .analyzeAndReport).analyze false units).diagnostics =
        (bodiesOf units).flatMap found ∧
      (under .analyze).analyze false units =
        { (under .analyzeAndReport).analyze false units with
          diagnostics := (bodiesOf ordinary).flatMap found } ∧
      ((under .skip).analyze false units).diagnostics =
        ((under .analyze).analyze false units).diagnostics ∧
      (under .skip).analyze false units =
        { (under .analyze).analyze false ordinary with
          skipped := (bodiesOf (units.filter fun u => u.generated)).length }) := by
  intro a run outcome under ordinary found
  have hcancels := a.stopping_run_eq_false_iff.1 hstopping
  have houtcome := a.outcome_runOver (.refl (workItems units)) hcancels
  refine ⟨?_, ?_, ?_, fun r => sorted_run_of_mem_rules hcancels, rfl, ?_, ?_, ?_, ?_, ?_⟩
  · intro r hr
    obtain ⟨rule, hmem, hr⟩ := exists_of_mem_rules hr
    obtain ⟨henabled, first, registration, -, hregistration, heq⟩ := mem_activate.1 hr
    refine ⟨rule, registration, List.mem_zipIdx_iff_getElem?.1 hmem, henabled, hregistration,
      ?_, ?_⟩
    · rw [heq]
    · rw [heq, ActiveRule.policy]
  · intro place rule registration hrule henabled hregistration
    obtain ⟨r, hr, hplace, heq⟩ := exists_mem_rules hrule henabled hregistration
    exact ⟨r, hr, hplace, by rw [heq], by rw [ActiveRule.policy, heq]⟩
  · intro r hr u b
    rw [callsIn_of_mem_rules hr, r.analyzes_eq]
    cases u.generated && decide (r.policy = .skip) <;> rfl
  · rw [show outcome = _ from houtcome]
    simp only [faults_harvestBody, Nat.add_comm]
  · rw [show outcome = _ from houtcome, ← sum_map_ite_one]
    exact congrArg List.sum
      (List.map_congr_left fun p hp => by rw [skips_eq_of_known (hknown p hp)])
  · rw [show outcome = _ from houtcome]
    exact sum_ite_add_sum_ite (fun p : CompilationUnit × Body => a.skips p.1 p.2) _
  · intro override rules' hrules u b hu
    exact alone_congr_policies hrules override hu b
  · have hunder (p : GeneratedCodePolicy) : under p = a.under p := ofRules_overriding o p rules
    intro hquiet
    simp only [found, hunder] at hquiet ⊢
    have hquiet := (a.under .analyze).stopping_run_eq_false_iff.1 hquiet
    have hreporting := hquiet
    simp only [(harvestBody_under_analyze a _ _).2.1] at hreporting
    have hordinary : ∀ p ∈ bodiesOf ordinary,
        ((a.under .analyze).harvestBody p.1 p.2).effects.cancels = false := by
      rw [← filter_bodiesOf]
      exact fun p hp => hquiet p (List.mem_of_mem_filter hp)
    have hskip := analyze_under_skip .analyze hknown hquiet
    refine ⟨?_, analyze_under_analyze hquiet, ?_, hskip⟩
    · rw [analyze, Analyzer.run, outcome_runOver _ (.refl _) hreporting]
      simp only [alone_eq]
    · rw [hskip, analyze_under_analyze hordinary, analyze_under_analyze hquiet]
      simp only [ordinary, List.filter_filter, Bool.and_self]

theorem analyze_generated_sample :
    let units := [Sample.unit, Sample.generatedUnit]
    let a := fun p => ofRules (Sample.policed p) [Sample.rule]
    let called := fun p =>
      ((a p).callsIn Sample.generatedUnit Sample.body).filter fun c => c.place? = some 0
    let found := fun p =>
      (((a p).run false units).sink.sorted.filter fun f => f.rule = 0).map Finding.diagnostic
    let outcome := fun p => (a p).analyze false units
    (∀ p ∈ bodiesOf units, (p.1.symbols.method? p.2.method).isSome = true) ∧
    (∀ p, ((a p).run false units).stopping = false ∧ (a p).rules = [Sample.policedRule p]) ∧
    (called .skip = [] ∧ found .skip = [Sample.diagnostic] ∧
      (outcome .skip).faults = 1 ∧ (outcome .skip).skipped = 1) ∧
    (called .analyze = Sample.policedCalls .analyze Sample.generatedUnit ∧
      found .analyze = [Sample.diagnostic] ∧
      (outcome .analyze).faults = 2 ∧ (outcome .analyze).skipped = 0) ∧
    (called .analyzeAndReport = Sample.policedCalls .analyzeAndReport Sample.generatedUnit ∧
      found .analyzeAndReport = [Sample.diagnostic, Sample.diagnostic] ∧
      (outcome .analyzeAndReport).faults = 2 ∧ (outcome .analyzeAndReport).skipped = 0) ∧
    outcome .skip = { (a .analyze).analyze false [Sample.unit] with skipped := 1 } := by
  intro units a called found outcome
  have hknown : ∀ p ∈ bodiesOf units, (p.1.symbols.method? p.2.method).isSome = true := by decide
  have hbodies : bodiesOf units =
      [(Sample.unit, Sample.body), (Sample.generatedUnit, Sample.body)] := rfl
  have hrules (p : GeneratedCodePolicy) : (a p).rules = [Sample.policedRule p] := rfl
  have hunit (p : GeneratedCodePolicy) : (Sample.policedRule p).callsIn Sample.unit Sample.body =
      Sample.policedCalls p Sample.unit := Sample.callsIn_policedRule p false
  have hgenerated (p : GeneratedCodePolicy) :
      (Sample.policedRule p).callsIn Sample.generatedUnit Sample.body =
        Sample.policedCalls p Sample.generatedUnit := Sample.callsIn_policedRule p true
  have hof (p : GeneratedCodePolicy) := analyze_generated (Sample.policed p) [Sample.rule] units
    hknown (Sample.stopping_run_policed p)
  have hcalled (p : GeneratedCodePolicy) : called p =
      if p = .skip then [] else Sample.policedCalls p Sample.generatedUnit := by
    obtain ⟨-, -, hcalls, -⟩ := hof p
    rw [show called p = _ from hcalls (Sample.policedRule p) (List.mem_singleton_self _) _ _,
      hgenerated]
    cases p <;> rfl
  have hfound (p : GeneratedCodePolicy) : found p =
      Sample.diagnostic :: if p = .analyzeAndReport then [Sample.diagnostic] else [] := by
    obtain ⟨-, -, -, hfindings, -⟩ := hof p
    rw [show found p = _ from hfindings (Sample.policedRule p) (List.mem_singleton_self _),
      hbodies, List.flatMap_cons, List.flatMap_singleton, hunit, hgenerated]
    cases p <;> rfl
  have hfaults (p : GeneratedCodePolicy) : (outcome p).faults = if p = .skip then 1 else 2 := by
    obtain ⟨-, -, -, -, -, hfaults, -⟩ := hof p
    rw [show (outcome p).faults = _ from hfaults, hbodies,
      show (ofRules _ _).rules = _ from hrules p]
    simp only [List.map_cons, List.map_nil, hunit, hgenerated]
    cases p <;> rfl
  have hskipped (p : GeneratedCodePolicy) : (outcome p).skipped = if p = .skip then 1 else 0 := by
    obtain ⟨-, -, -, -, -, -, hskipped, -⟩ := hof p
    rw [show (outcome p).skipped = _ from hskipped, hbodies]
    cases p <;> rfl
  obtain ⟨-, -, -, -, -, -, -, -, -, hoverrides⟩ := hof .analyze
  obtain ⟨-, -, -, houtcome⟩ := hoverrides (Sample.stopping_run_policed .analyze)
  refine ⟨hknown, fun p => ⟨Sample.stopping_run_policed p, hrules p⟩, ?_, ?_, ?_, houtcome⟩
  · exact ⟨hcalled .skip, hfound .skip, hfaults .skip, hskipped .skip⟩
  · exact ⟨hcalled .analyze, hfound .analyze, hfaults .analyze, hskipped .analyze⟩
  · exact ⟨hcalled .analyzeAndReport, hfound .analyzeAndReport, hfaults .analyzeAndReport,
      hskipped .analyzeAndReport⟩

end OpLint
