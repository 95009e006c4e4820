import OpLint.Proofs.Analysis.Enablement

/-!
# Severities change nothing else

The settings that choose severities stand in one table with those that enable ids. Two options
that enable the same ids, and have the same policy for generated code, make the same analyzer
all the same: which rules take part is decided without a look at severities. So the same
callbacks are called and report the same.

Only then, when a body is done, each diagnostic gets its severity, and it is looked up by the
diagnostic's own code. What a handler reported is therefore seen in every outcome, with at
most its severity replaced.
-/

namespace OpLint

/-- The same diagnostic, but perhaps for its severity. -/
def Diagnostic.SameButSeverity (d e : Diagnostic) : Prop :=
  e = { d with severity := e.severity }

namespace Analyzer

variable (a : Analyzer) (units : List CompilationUnit)

/-- What the handlers report for the bodies of the units, call by call, as far as it counts. It
does not if the call fails, nor if its rule may not report in the unit. -/
def reportsIn : List Diagnostic :=
  (bodiesOf units).flatMap fun p => (a.callsIn p.1 p.2).flatMap fun c =>
    c.found.map Finding.diagnostic

variable {a units} {o o' : Options} {rules : List Rule}

/-- An outcome looks at the options for the severities of its diagnostics only. -/
theorem analyze_eq_reportsIn
    (h : ∀ p ∈ bodiesOf units, (a.harvestBody p.1 p.2).effects.cancels = false) :
    a.analyze false units =
      { diagnostics := (a.reportsIn units).map (Diagnostic.adjust a.options)
        analyzed := ((bodiesOf units).map fun p => if a.skips p.1 p.2 then 0 else 1).sum
        skipped := ((bodiesOf units).map fun p => if a.skips p.1 p.2 then 1 else 0).sum
        faults := ((bodiesOf units).map fun p => (a.callsIn p.1 p.2).countP Call.fails).sum +
          a.registrationFaults
        cancelled := false } := by
  rw [analyze, run, outcome_runOver _ (.refl _) h, reportsIn, List.map_flatMap]
  simp only [diagnostics_harvestBody_eq_calls]
  simp only [harvestBody_eq_calls, Effects.ofCalls]

theorem effects_with_options (o : Options) (u : CompilationUnit) (b : Body) :
    (({ a with options := o } : Analyzer).harvestBody u b).effects =
      (a.harvestBody u b).effects := by
  rw [harvestBody_eq_calls, harvestBody_eq_calls]
  rfl

/-- Replacing the options of an analyzer changes severities only. -/
theorem analyze_with_options (o : Options)
    (h : ∀ p ∈ bodiesOf units, (a.harvestBody p.1 p.2).effects.cancels = false) :
    ({ a with options := o } : Analyzer).analyze false units =
      { a.analyze false units with
        diagnostics := (a.reportsIn units).map (Diagnostic.adjust o) } := by
  rw [analyze_eq_reportsIn h, analyze_eq_reportsIn fun p hp => by
    rw [effects_with_options]
    exact h p hp]
  rfl

/-- Options that enable the same ids make the same analyzer, but for the options. -/
theorem ofRules_of_same_enabled (hpolicy : o'.generatedCode = o.generatedCode)
    (henabled : ∀ id,
      (o'.setting? id).bind RuleSetting.enabled = (o.setting? id).bind RuleSetting.enabled) :
    ofRules o' rules = { ofRules o rules with options := o' } := by
  have hisEnabled : o'.isEnabled = o.isEnabled := by
    funext d
    rw [Options.isEnabled, Options.isEnabled, henabled]
  exact ofRules_congr (fun rule _ => by rw [hisEnabled]) hpolicy

end Analyzer

open Analyzer

/-- Severity settings have no influence but on severities. Options that enable the same ids and
have the same policy for generated code give the same outcome, diagnostic by diagnostic, except
for severities; and the severity of a diagnostic is that which the options choose for its code
or, if they choose none, that which its handler reported. This holds however many workers take
the bodies, as long as nobody asks for cancellation. -/
theorem analyze_severities (o o' : Options) (rules : List Rule) (units : List CompilationUnit)
    (hpolicy : o'.generatedCode = o.generatedCode)
    (henabled : ∀ id,
      (o'.setting? id).bind RuleSetting.enabled = (o.setting? id).bind RuleSetting.enabled)
    (hstopping : ((ofRules o rules).run false units).stopping = false) :
    let a := ofRules o rules
    let a' := ofRules o' rules
    let outcome := a.analyze false units
    let outcome' := a'.analyze false units
    outcome' = { outcome with diagnostics := outcome'.diagnostics } ∧
    List.Forall₂ Diagnostic.SameButSeverity outcome.diagnostics outcome'.diagnostics ∧
    (outcome.diagnostics = (a.reportsIn units).map fun d =>
      { d with severity := (o.severityOverride? d.code).getD d.severity }) ∧
    (outcome'.diagnostics = (a.reportsIn units).map fun d =>
      { d with severity := (o'.severityOverride? d.code).getD d.severity }) ∧
    (∀ mode, a'.runsConcurrently mode = a.runsConcurrently mode) ∧
    ∀ b ∈ [a, a'], ∀ concurrent schedule,
      let c := Crew.after b concurrent false (workItems units) schedule
      c.Done → c.run.stopping = false → c.run.outcome b = b.analyze false units := by
  intro a a' outcome outcome'
  have hcancels := a.stopping_run_eq_false_iff.1 hstopping
  have ha' : a' = { a with options := o' } := ofRules_of_same_enabled hpolicy henabled
  have houtcome : outcome.diagnostics = (a.reportsIn units).map (Diagnostic.adjust o) :=
    congrArg Outcome.diagnostics (analyze_eq_reportsIn hcancels)
  have houtcome' : outcome' =
      { outcome with diagnostics := (a.reportsIn units).map (Diagnostic.adjust o') } := by
    rw [show outcome' = a'.analyze false units from rfl, ha']
    exact analyze_with_options o' hcancels
  refine ⟨?_, ?_, houtcome, ?_, fun mode => ?_, ?_⟩
  · rw [houtcome']
  · rw [houtcome, houtcome', List.forall₂_map_left_iff, List.forall₂_map_right_iff,
      List.forall₂_same]
    exact fun d _ => rfl
  · rw [houtcome']
    rfl
  · rw [ha']
    rfl
  · intro b hb concurrent schedule c hdone hquiet
    refine (Crew.sound_after schedule).outcome_eq_analyze hdone hquiet fun p hp => ?_
    obtain rfl | rfl := List.mem_pair.1 hb
    · exact hcancels p hp
    · rw [ha', effects_with_options]
      exact hcancels p hp

namespace Sample

/-- Options that turn the findings of the sample rule into errors. -/
def strict : Options := { Options.default with rules := [("S1", ⟨none, some .error⟩)] }

theorem enabled_strict (id : String) :
    (strict.setting? id).bind RuleSetting.enabled =
      (Options.default.setting? id).bind RuleSetting.enabled := by
  show (List.lookup id [("S1", (⟨none, some .error⟩ : RuleSetting))]).bind RuleSetting.enabled =
    none
  rw [List.lookup_cons]
  split <;> rfl

end Sample

theorem analyze_severities_strict :
    ((ofRules .default [Sample.rule]).analyze false [Sample.unit]).diagnostics =
        [Sample.diagnostic] ∧
      ((ofRules Sample.strict [Sample.rule]).analyze false [Sample.unit]).diagnostics =
        [{ Sample.diagnostic with severity := .error }] := by
  have hstopping : ((ofRules .default [Sample.rule]).run false [Sample.unit]).stopping = false := by
    refine Sample.stopping_run (fun _ => List.mem_singleton.1) ?_
    exact congrArg (·.effects.cancels) Sample.harvestBody_unit
  obtain ⟨-, -, hfound, hstrict, -⟩ := analyze_severities .default Sample.strict [Sample.rule]
    [Sample.unit] rfl Sample.enabled_strict hstopping
  have hreports : (ofRules .default [Sample.rule]).reportsIn [Sample.unit] =
      [Sample.diagnostic] := by
    show (bodiesOf [Sample.unit]).flatMap (fun p => (Sample.analyzer.callsIn p.1 p.2).flatMap _) = _
    have hbodies : bodiesOf [Sample.unit] = [(Sample.unit, Sample.body)] := rfl
    rw [hbodies, List.flatMap_singleton, Sample.callsIn_unit]
    rfl
  rw [hreports] at hfound hstrict
  exact ⟨hfound, hstrict⟩

end OpLint
