import OpLint.Analysis.Harvest
import OpLint.Options.Basic

/-!
# Analyzers

An analyzer holds the rules that take part in an analysis. A rule takes part if
one of its descriptors is enabled and its registration did not fail. Options that
choose a policy for generated code replace the one that the rule registered.
-/

namespace OpLint

/-- A rule that takes part. -/
structure ActiveRule where
  /-- The place of the rule among the given ones. -/
  place : Nat
  id : String
  registration : Registration

/-- Whether the rule's callbacks run on bodies of the unit. -/
def ActiveRule.analyzes (r : ActiveRule) (u : CompilationUnit) : Bool :=
  !u.generated || r.registration.generatedCode.analyzes

/-- Whether what the rule's handlers find in the unit counts. -/
def ActiveRule.reports (r : ActiveRule) (u : CompilationUnit) : Bool :=
  !u.generated || r.registration.generatedCode.reports

structure Analyzer where
  rules : List ActiveRule
  options : Options
  /-- How many registrations failed. -/
  registrationFaults : Nat

namespace Analyzer

/-- The rule as it takes part under the options, if it does. -/
def activate (o : Options) (rule : Rule) (place : Nat) : Harvest ActiveRule :=
  match rule.descriptors with
  | [] => ⟨[], 0, false, [.ruleIgnored]⟩
  | first :: _ =>
    if rule.descriptors.any o.isEnabled then
      match rule.registration with
      | .error fault => ⟨[], 1, false, [.registrationFailed first.id fault.message]⟩
      | .ok r =>
        let registration := { r with generatedCode := o.generatedCode.getD r.generatedCode }
        ⟨[⟨place, first.id, registration⟩], 0, false,
          [.ruleRegistered first.id r.actions.length r.concurrent]⟩
    else ⟨[], 0, false, [.ruleDisabled first.id]⟩

def activateAll (o : Options) (rules : List Rule) : Harvest ActiveRule :=
  .gather (fun (rule, place) => activate o rule place) rules.zipIdx

def ofRules (o : Options) (rules : List Rule) : Analyzer :=
  let active := activateAll o rules
  ⟨active.items, o, active.effects.faults⟩

/-- What is logged while the analyzer is made. -/
def eventsOfRules (o : Options) (rules : List Rule) : List Event :=
  (activateAll o rules).effects.events

def ruleIds (a : Analyzer) : List String :=
  a.rules.map ActiveRule.id

/-- Whether an analysis in that mode takes several bodies at once. -/
def runsConcurrently (a : Analyzer) (mode : ExecutionMode) : Bool :=
  mode = .concurrent && a.rules.all (·.registration.concurrent)

end Analyzer

end OpLint
