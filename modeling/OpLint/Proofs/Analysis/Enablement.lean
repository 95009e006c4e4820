import OpLint.Proofs.Analysis.Cancellation
import OpLint.Proofs.Analysis.Dispatch
import OpLint.Proofs.Analysis.Registration

/-!
# Rules are enabled as a whole

Options enable or disable ids, and a rule may report with several of them. Whether it takes
part is decided once, when the analyzer is made: one enabled descriptor is enough. From then
on the settings are not looked at again, so a rule that takes part reports with its disabled
ids too, and a diagnostic of an outcome says of its code only that some rule with an enabled
descriptor declares it.

To see that, a finding is followed back to where it came from: to a call of a handler, to the
action that registered the handler, and to the rule that registered the action.
-/

namespace OpLint

open Analyzer

/-- Whether the rule's handlers report with the ids of its own descriptors only. -/
def Rule.ReportsOwn (rule : Rule) : Prop :=
  ∀ registration, rule.registration = .ok registration → ∀ action ∈ registration.actions,
    ∀ site, ∀ handler ∈ (action.start site).output, ∀ v, ∀ d ∈ (handler.run v).output,
      ∃ descriptor ∈ rule.descriptors, descriptor.id = d.code

/-- Whether the rule has a descriptor with that id. -/
def Rule.Declares (rule : Rule) (id : String) : Prop :=
  ∃ descriptor ∈ rule.descriptors, descriptor.id = id

/-! ## Where a diagnostic comes from -/

theorem Call.mem_output_of_mem_found {c : Call} {f : Finding} (h : f ∈ c.found) :
    ∃ u method i r, c = .operation u method i r ∧
      f.diagnostic ∈ (r.handler.run ⟨u, method, i⟩).output := by
  cases c with
  | operation u method i r =>
      refine ⟨u, method, i, r, rfl, ?_⟩
      rw [found] at h
      split at h
      · cases h
      · obtain ⟨d, hd, rfl⟩ := List.mem_map.1 h
        exact hd
  | _ => cases h

namespace Analyzer

variable {a : Analyzer} {o : Options} {rules : List Rule}

/-- What is found in a body was reported by a handler that a rule of the analyzer registered,
but for the severity. -/
theorem exists_handler_of_mem_items {u : CompilationUnit} {b : Body} {f : Finding}
    (h : f ∈ (a.harvestBody u b).items) :
    ∃ r ∈ a.rules, ∃ action ∈ r.registration.actions, ∃ site,
      ∃ handler ∈ (action.start site).output, ∃ v, ∃ d ∈ (handler.run v).output,
        f.diagnostic = d.adjust a.options := by
  rw [harvestBody_eq_calls] at h
  obtain ⟨f, hf, rfl⟩ := List.mem_map.1 h
  obtain ⟨c, hc, hf⟩ := List.mem_flatMap.1 hf
  obtain ⟨u', method, i, r, rfl, hd⟩ := Call.mem_output_of_mem_found hf
  obtain ⟨hrule, -, action, haction, -, hhandler⟩ :=
    mem_registered.1 (of_operation_mem_callsIn hc).2
  exact ⟨r.rule, hrule, action, haction, _, r.handler, hhandler, _, f.diagnostic, hd, rfl⟩

theorem exists_rule_of_mem_ofRules {r : ActiveRule} (h : r ∈ (ofRules o rules).rules) :
    ∃ rule ∈ rules, rule.descriptors.any o.isEnabled = true ∧ ∃ registration,
      rule.registration = .ok registration ∧
        r.registration.actions = registration.actions := by
  obtain ⟨rule, hmem, hr⟩ := exists_of_mem_rules h
  obtain ⟨henabled, first, registration, -, hregistration, heq⟩ := mem_activate.1 hr
  refine ⟨rule, List.mem_of_getElem? (List.mem_zipIdx_iff_getElem?.1 hmem), henabled,
    registration, hregistration, ?_⟩
  rw [heq]

/-- The code of what is found in a body is declared by a rule that is enabled as a whole. -/
theorem exists_declares_of_mem_items (hown : ∀ rule ∈ rules, rule.ReportsOwn)
    {u : CompilationUnit} {b : Body} {f : Finding}
    (h : f ∈ ((ofRules o rules).harvestBody u b).items) :
    ∃ rule ∈ rules, rule.Declares f.diagnostic.code ∧
      rule.descriptors.any o.isEnabled = true := by
  obtain ⟨r, hr, action, haction, site, handler, hhandler, v, d, hd, hf⟩ :=
    exists_handler_of_mem_items h
  obtain ⟨rule, hrule, henabled, registration, hregistration, hactions⟩ :=
    exists_rule_of_mem_ofRules hr
  rw [hactions] at haction
  refine ⟨rule, hrule, ?_, henabled⟩
  rw [hf]
  exact hown rule hrule registration hregistration action haction site handler hhandler v d hd

/-! ## What the settings decide -/

theorem activate_congr {o o' : Options} {rule : Rule}
    (henabled : rule.descriptors.any o'.isEnabled = rule.descriptors.any o.isEnabled)
    (hpolicy : o'.generatedCode = o.generatedCode) (place : Nat) :
    activate o' rule place = activate o rule place := by
  rw [activate, activate, henabled, hpolicy]

theorem ofRules_congr {o o' : Options}
    (henabled : ∀ rule ∈ rules,
      rule.descriptors.any o'.isEnabled = rule.descriptors.any o.isEnabled)
    (hpolicy : o'.generatedCode = o.generatedCode) :
    ofRules o' rules = { ofRules o rules with options := o' } := by
  have hall : activateAll o' rules = activateAll o rules :=
    Harvest.gather_congr fun p hp =>
      activate_congr (henabled p.1 (List.mem_of_getElem? (List.mem_zipIdx_iff_getElem?.1 hp)))
        hpolicy p.2
  rw [ofRules, ofRules, hall]

/-- Of the options themselves an analysis only looks at the severities. -/
theorem moves_congr {o' : Options}
    (h : ∀ code, o'.severityOverride? code = a.options.severityOverride? code) :
    ({ a with options := o' } : Analyzer).moves = a.moves := by
  have hadjust : Finding.adjust o' = Finding.adjust a.options := by
    funext f
    rw [Finding.adjust, Finding.adjust, Diagnostic.adjust, Diagnostic.adjust, h]
  funext w
  rw [moves, moves, harvestBody_eq_calls, harvestBody_eq_calls]
  show (if a.skips w.unit w.body then _ else
    (a.callsIn w.unit w.body).flatMap Call.moves ++ [.step (.commit w.key
      (((a.callsIn w.unit w.body).flatMap Call.found).map (Finding.adjust o'))), _]) = _
  rw [hadjust]

end Analyzer

theorem Crew.after_congr {a a' : Analyzer} (h : a'.moves = a.moves) :
    Crew.after a' = Crew.after a := by
  have henter : enter a' = enter a := by
    funext c w
    rw [enter, enter, h]
  have hturn : turn a' = turn a := by
    funext concurrent c t
    cases t with
    | take place => rw [turn, turn, henter]
    | _ => rfl
  funext concurrent stopping work schedule
  rw [after, after, hturn]

namespace Sample

def secondDescriptor : Descriptor := { descriptor with id := "S2" }

/-- A rule with two ids that reports with the second one. -/
def pairedRule : Rule where
  descriptors := [descriptor, secondDescriptor]
  registration := .ok
    ⟨[⟨fun _ => .ofOutput true, fun _ =>
      .ofOutput [⟨.literal, fun v => .ofOutput [secondDescriptor.create v.unit.file ⟨7, 8⟩ []]⟩]⟩],
      true, .analyzeAndReport⟩

/-- Options that disable the second id. -/
def firstOnly : Options := { Options.default with rules := [("S2", ⟨some false, none⟩)] }

theorem reportsOwn_pairedRule : pairedRule.ReportsOwn := by
  intro registration hregistration action haction site handler hhandler v d hd
  cases hregistration
  rw [List.mem_singleton.1 haction] at hhandler
  rw [List.mem_singleton.1 hhandler] at hd
  rw [List.mem_singleton.1 hd]
  exact ⟨secondDescriptor, List.mem_cons_of_mem _ List.mem_cons_self, rfl⟩

theorem harvestBody_pairedRule :
    (ofRules firstOnly [pairedRule]).harvestBody unit body =
      ⟨[⟨0, secondDescriptor.create "a.cs" ⟨7, 8⟩ []⟩], 0, false, []⟩ := by
  rw [harvestBody_eq_calls, callsIn_eq, visits_eq]
  rfl

theorem diagnostics_pairedRule :
    ((ofRules firstOnly [pairedRule]).analyze false [unit]).diagnostics =
      [secondDescriptor.create "a.cs" ⟨7, 8⟩ []] := by
  have hsorted := sorted_run (a := ofRules firstOnly [pairedRule]) (by rw [harvestBody_pairedRule])
  rw [analyze, Run.outcome, hsorted, harvestBody_pairedRule]
  rfl

end Sample

/-- If every descriptor with an id is disabled, nothing has it for its code, provided that the
rules declaring it have no other descriptor that is enabled: a code in an outcome is declared
by a rule with an enabled descriptor. And this is all that the settings of ids decide, but for
severities: options that enable the same rules as a whole give the same outcome. -/
theorem enabled_as_a_whole (o : Options) (rules : List Rule) (units : List CompilationUnit)
    (concurrent stopping : Bool) (schedule : List Turn)
    (hown : ∀ rule ∈ rules, rule.ReportsOwn)
    (hdone : (Crew.after (ofRules o rules) concurrent stopping (workItems units) schedule).Done) :
    let outcome := fun o : Options =>
      (Crew.after (ofRules o rules) concurrent stopping (workItems units) schedule).run.outcome
        (ofRules o rules)
    (∀ id, (∀ rule ∈ rules, rule.Declares id →
        ∀ descriptor ∈ rule.descriptors, o.isEnabled descriptor = false) →
      ∀ d ∈ (outcome o).diagnostics, d.code ≠ id) ∧
    (∀ d ∈ (outcome o).diagnostics, ∃ rule ∈ rules, rule.Declares d.code ∧
      ∃ descriptor ∈ rule.descriptors, o.isEnabled descriptor = true) ∧
    ∀ o' : Options, o'.generatedCode = o.generatedCode →
      (∀ code, o'.severityOverride? code = o.severityOverride? code) →
      (∀ rule ∈ rules, rule.descriptors.any o'.isEnabled = rule.descriptors.any o.isEnabled) →
      outcome o' = outcome o := by
  intro outcome
  have hcodes : ∀ d ∈ (outcome o).diagnostics, ∃ rule ∈ rules, rule.Declares d.code ∧
      ∃ descriptor ∈ rule.descriptors, o.isEnabled descriptor = true := by
    intro d hd
    rw [show outcome o = _ from (Crew.sound_after schedule).outcome_eq hdone] at hd
    obtain ⟨w, -, hd⟩ := List.mem_flatMap.1 hd
    obtain ⟨f, hf, rfl⟩ := List.mem_map.1 hd
    obtain ⟨rule, hrule, hdeclares, henabled⟩ := exists_declares_of_mem_items hown hf
    exact ⟨rule, hrule, hdeclares, List.any_eq_true.1 henabled⟩
  refine ⟨?_, hcodes, ?_⟩
  · rintro id hdisabled d hd rfl
    obtain ⟨rule, hrule, hdeclares, descriptor, hdescriptor, henabled⟩ := hcodes d hd
    rw [hdisabled rule hrule hdeclares descriptor hdescriptor] at henabled
    exact Bool.false_ne_true henabled
  · intro o' hpolicy hseverity henabled
    have hrules := ofRules_congr henabled hpolicy
    have hmoves : (ofRules o' rules).moves = (ofRules o rules).moves := by
      rw [hrules]
      exact moves_congr hseverity
    show Run.outcome (Crew.after _ _ _ _ _).run _ = Run.outcome (Crew.after _ _ _ _ _).run _
    rw [Crew.after_congr hmoves, hrules]
    rfl

theorem enabled_as_a_whole_sample :
    ∃ d ∈ ((ofRules Sample.firstOnly [Sample.pairedRule]).analyze false [Sample.unit]).diagnostics,
      ∃ rule ∈ [Sample.pairedRule], rule.Declares d.code ∧
        ∃ descriptor ∈ rule.descriptors, Sample.firstOnly.isEnabled descriptor = true := by
  obtain ⟨schedule, hdone, houtcome⟩ := Crew.exists_schedule
    (ofRules Sample.firstOnly [Sample.pairedRule]) false (workItems [Sample.unit])
  obtain ⟨-, hcodes, -⟩ := enabled_as_a_whole Sample.firstOnly [Sample.pairedRule] [Sample.unit]
    false false schedule (fun _ h => List.mem_singleton.1 h ▸ Sample.reportsOwn_pairedRule) hdone
  have hmem : Sample.secondDescriptor.create "a.cs" ⟨7, 8⟩ [] ∈
      ((ofRules Sample.firstOnly [Sample.pairedRule]).analyze false [Sample.unit]).diagnostics := by
    rw [Sample.diagnostics_pairedRule]
    exact List.mem_singleton_self _
  refine ⟨_, hmem, hcodes _ ?_⟩
  show _ ∈ (Run.outcome (Crew.after _ _ _ _ _).run _).diagnostics
  rw [houtcome]
  exact hmem

/-- A rule with one enabled descriptor reports with a disabled one too. -/
theorem disabled_id_reported :
    (∀ rule ∈ [Sample.pairedRule], rule.ReportsOwn) ∧
      (∀ rule ∈ [Sample.pairedRule], ∀ descriptor ∈ rule.descriptors,
        descriptor.id = "S2" → Sample.firstOnly.isEnabled descriptor = false) ∧
      ∃ d ∈ ((ofRules Sample.firstOnly [Sample.pairedRule]).analyze false
        [Sample.unit]).diagnostics, d.code = "S2" := by
  refine ⟨fun _ h => List.mem_singleton.1 h ▸ Sample.reportsOwn_pairedRule, ?_, ?_⟩
  · decide
  · rw [Sample.diagnostics_pairedRule]
    exact ⟨_, List.mem_singleton_self _, rfl⟩

end OpLint
