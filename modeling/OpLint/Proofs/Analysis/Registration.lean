import OpLint.Proofs.Analysis.Recast

/-!
# Which rules take part

An analyzer is made from a list of rules, one after the other, and what becomes of a rule
does not depend on the rules around it: only its place does. So apart from the places, the
rules that take part are those that each rule gives by itself; and each rule that is enabled
is asked once for its registration.
-/

namespace OpLint

namespace Analyzer

variable (o : Options)

/-- A rule takes part if it is enabled as a whole, and its registration did not fail. -/
theorem mem_activate {o : Options} {rule : Rule} {place : Nat} {r : ActiveRule} :
    r ∈ (activate o rule place).items ↔
      rule.descriptors.any o.isEnabled = true ∧ ∃ first registration,
        rule.descriptors.head? = some first ∧ rule.registration = .ok registration ∧
          r = ⟨place, first.id, { registration with
            generatedCode := o.generatedCode.getD registration.generatedCode }⟩ := by
  obtain ⟨descriptors, registration⟩ := rule
  rw [activate]
  cases descriptors with
  | nil => simp
  | cons first rest =>
      simp only
      split
      · next henabled =>
          cases registration with
          | error fault => simp
          | ok registration => simp [henabled]
      · next henabled => simp [henabled]

theorem place_of_mem_activate {o : Options} {rule : Rule} {place : Nat} {r : ActiveRule}
    (h : r ∈ (activate o rule place).items) : r.place = place := by
  obtain ⟨-, _, _, -, -, rfl⟩ := mem_activate.1 h
  rfl

theorem eq_of_mem_activate {o : Options} {rule : Rule} {place : Nat} {r : ActiveRule}
    (h : r ∈ (activate o rule place).items) : (activate o rule place).items = [r] := by
  obtain ⟨descriptors, registration⟩ := rule
  rw [activate] at h ⊢
  cases descriptors with
  | nil => cases h
  | cons first rest =>
      simp only at h ⊢
      split at h
      · next henabled =>
          rw [if_pos henabled]
          cases registration with
          | error fault => cases h
          | ok registration => rw [List.mem_singleton.1 h]
      · cases h

theorem unplaced_activate (rule : Rule) (place : Nat) :
    (activate o rule place).items.map ActiveRule.unplaced = (activate o rule 0).items := by
  rw [activate, activate]
  cases rule.descriptors with
  | nil => rfl
  | cons first rest =>
      simp only
      split
      · cases rule.registration <;> rfl
      · rfl

theorem rules_ofRules (rules : List Rule) :
    (ofRules o rules).rules = rules.zipIdx.flatMap fun p => (activate o p.1 p.2).items :=
  Harvest.items_gather _ _

theorem exists_of_mem_rules {o : Options} {rules : List Rule} {r : ActiveRule}
    (h : r ∈ (ofRules o rules).rules) :
    ∃ rule, (rule, r.place) ∈ rules.zipIdx ∧ r ∈ (activate o rule r.place).items := by
  rw [rules_ofRules] at h
  obtain ⟨⟨rule, place⟩, hmem, hr⟩ := List.mem_flatMap.1 h
  obtain rfl : r.place = place := place_of_mem_activate hr
  exact ⟨rule, hmem, hr⟩

/-- A rule that is enabled and was registered takes part, under its place. -/
theorem exists_mem_rules {o : Options} {rules : List Rule} {place : Nat} {rule : Rule}
    {registration : Registration} (hrule : rules[place]? = some rule)
    (henabled : rule.descriptors.any o.isEnabled = true)
    (hregistration : rule.registration = .ok registration) :
    ∃ r ∈ (ofRules o rules).rules, r.place = place ∧ r.registration = { registration with
      generatedCode := o.generatedCode.getD registration.generatedCode } := by
  obtain ⟨first, hfirst⟩ : ∃ first, rule.descriptors.head? = some first := by
    cases hdescriptors : rule.descriptors with
    | nil =>
        rw [hdescriptors] at henabled
        cases henabled
    | cons first rest => exact ⟨first, rfl⟩
  let r : ActiveRule := ⟨place, first.id, { registration with
    generatedCode := o.generatedCode.getD registration.generatedCode }⟩
  have hactive : r ∈ (activate o rule place).items :=
    mem_activate.2 ⟨henabled, first, registration, hfirst, hregistration, rfl⟩
  have hplaced : (rule, place) ∈ rules.zipIdx := List.mem_zipIdx_iff_getElem?.2 hrule
  refine ⟨r, ?_, rfl, rfl⟩
  rw [rules_ofRules]
  exact List.mem_flatMap.2 ⟨(rule, place), hplaced, hactive⟩

/-- Apart from the places, the rules that take part are those that each rule gives. -/
theorem unplaced_ofRules (rules : List Rule) :
    (ofRules o rules).rules.map ActiveRule.unplaced =
      rules.flatMap fun rule => (activate o rule 0).items := by
  rw [rules_ofRules, List.map_flatMap]
  simp only [unplaced_activate]
  rw [← List.flatMap_map Prod.fst fun rule => (activate o rule 0).items, List.zipIdx_map_fst]

/-- The call that asks a rule for its registration, if the rule is enabled. -/
def registrationCall? (rule : Rule) : Option Call :=
  match rule.descriptors with
  | [] => none
  | first :: _ =>
    if rule.descriptors.any o.isEnabled then some (.registration first.id rule) else none

theorem registrationCall?_eq_some {o : Options} {rule : Rule} {c : Call}
    (h : registrationCall? o rule = some c) : ∃ id, c = .registration id rule := by
  rw [registrationCall?] at h
  cases hdescriptors : rule.descriptors with
  | nil =>
      rw [hdescriptors] at h
      cases h
  | cons first rest =>
      rw [hdescriptors] at h
      obtain ⟨-, h⟩ := Option.ite_none_right_eq_some.1 h
      exact ⟨first.id, (Option.some.inj h).symm⟩

theorem faults_activate (rule : Rule) (place : Nat) :
    (activate o rule place).effects.faults =
      (registrationCall? o rule).toList.countP Call.fails := by
  rw [activate, registrationCall?]
  cases rule.descriptors with
  | nil => rfl
  | cons first rest =>
      simp only
      split
      · cases hregistration : rule.registration <;>
          simp [Call.fails, Call.fault?, hregistration]
      · rfl

/-- Each enabled rule whose registration fails is one fault. -/
theorem registrationFaults_ofRules (rules : List Rule) :
    (ofRules o rules).registrationFaults =
      (rules.filterMap (registrationCall? o)).countP Call.fails := by
  show (activateAll o rules).effects.faults = _
  rw [activateAll, Harvest.faults_gather, List.filterMap_eq_flatMap_toList, List.countP_flatMap]
  show (rules.zipIdx.map fun p => (activate o p.1 p.2).effects.faults).sum = _
  simp only [faults_activate]
  rw [← List.zipIdx_map_fst 0 rules, List.map_map, List.zipIdx_map_fst]
  rfl

variable (rules : List Rule) (units : List CompilationUnit)

/-- All callbacks that an analysis calls: each enabled rule for its registration, then those
for the bodies. -/
def callsOf : List Call :=
  rules.filterMap (registrationCall? o) ++
    (bodiesOf units).flatMap fun p => (ofRules o rules).callsIn p.1 p.2

theorem faults_analyze (h : ∀ p ∈ bodiesOf units,
    ((ofRules o rules).harvestBody p.1 p.2).effects.cancels = false) :
    ((ofRules o rules).analyze false units).faults =
      (callsOf o rules units).countP Call.fails := by
  rw [analyze, run, outcome_runOver _ (.refl _) h, registrationFaults_ofRules, callsOf,
    List.countP_append, List.countP_flatMap, Nat.add_comm]
  simp only [harvestBody_eq_calls]
  rfl

end Analyzer

end OpLint
