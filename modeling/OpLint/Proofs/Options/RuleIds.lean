import OpLint.Options.Basic
import OpLint.Proofs.Text.Bytes

/-!
# Settings for rules that are not there

The ids that have a setting are looked through in ascending order, so the one that is complained
about is the least of those that no rule declares, in whatever order the settings are kept. And
if there is no such id now, further rules do not bring one about.
-/

namespace OpLint

/-- The first element of a sorted list with some property is the least one that has it. -/
theorem find?_mergeSort_eq_some_iff {α : Type} {le : α → α → Bool}
    (htrans : ∀ a b c, le a b → le b c → le a c) (htotal : ∀ a b, le a b || le b a)
    (hantisymm : ∀ a b, le a b → le b a → a = b) {as : List α} {p : α → Bool} {a : α} :
    (as.mergeSort le).find? p = some a ↔ (a ∈ as ∧ p a) ∧ ∀ b ∈ as, p b → le a b := by
  have hmem (b : α) : b ∈ as.mergeSort le ↔ b ∈ as := (List.mergeSort_perm as le).mem_iff
  have hfirst {a : α} (h : (as.mergeSort le).find? p = some a) :
      (a ∈ as ∧ p a) ∧ ∀ b ∈ as, p b → le a b := by
    obtain ⟨hp, before, after, hsplit, hbefore⟩ := List.find?_eq_some_iff_append.1 h
    have hsorted := List.pairwise_mergeSort htrans htotal as
    rw [hsplit] at hsorted
    refine ⟨⟨(hmem a).1 (List.mem_of_find?_eq_some h), hp⟩, fun b hb hpb => ?_⟩
    rw [← hmem, hsplit, List.mem_append, List.mem_cons] at hb
    rcases hb with hb | rfl | hb
    · have hnot := hbefore b hb
      rw [hpb] at hnot
      cases hnot
    · exact (Bool.or_self _).symm.trans (htotal b b)
    · exact List.rel_of_pairwise_cons (List.pairwise_append.1 hsorted).2.1 hb
  refine ⟨hfirst, fun ⟨⟨ha, hp⟩, hleast⟩ => ?_⟩
  cases hfind : (as.mergeSort le).find? p with
  | none => exact absurd hp (List.find?_eq_none.1 hfind a ((hmem a).2 ha))
  | some b =>
      obtain ⟨⟨hb, hpb⟩, hleast'⟩ := hfirst hfind
      rw [hantisymm a b (hleast b hb hpb) (hleast' a ha hp)]

namespace Options

variable {o : Options} {rules : List Rule} {id : String}

/-- Whether an id has a setting and no rule declares it. -/
def Unknown (o : Options) (rules : List Rule) (id : String) : Prop :=
  id ∈ o.rules.map Prod.fst ∧ ∀ rule ∈ rules, ∀ d ∈ rule.descriptors, d.id ≠ id

theorem isDeclared_iff :
    isDeclared rules id ↔ ∃ rule ∈ rules, ∃ d ∈ rule.descriptors, d.id = id := by
  simp [isDeclared]

theorem not_isDeclared_iff :
    (!isDeclared rules id) ↔ ∀ rule ∈ rules, ∀ d ∈ rule.descriptors, d.id ≠ id := by
  simp [isDeclared]

theorem unknownRuleId?_eq_some_iff :
    o.unknownRuleId? rules = some id ↔
      o.Unknown rules id ∧ ∀ other, o.Unknown rules other → id ≤ other := by
  rw [unknownRuleId?, find?_mergeSort_eq_some_iff]
  · simp only [not_isDeclared_iff, decide_eq_true_eq, Unknown, and_imp]
  · intro a b c hab hbc
    rw [decide_eq_true_eq] at *
    exact String.le_trans hab hbc
  · intro a b
    rw [Bool.or_eq_true, decide_eq_true_eq, decide_eq_true_eq]
    exact String.le_total a b
  · intro a b hab hba
    rw [decide_eq_true_eq] at *
    exact String.le_antisymm hab hba

theorem unknownRuleId?_eq_none_iff :
    o.unknownRuleId? rules = none ↔ ∀ id, ¬ o.Unknown rules id := by
  rw [unknownRuleId?, List.find?_eq_none]
  simp only [List.mem_mergeSort, not_isDeclared_iff, Unknown, not_and]

/-- Whether something is unknown depends on the ids with settings alone. -/
theorem unknown_congr {o' : Options}
    (h : ∀ id, id ∈ o'.rules.map Prod.fst ↔ id ∈ o.rules.map Prod.fst) :
    o'.Unknown rules id ↔ o.Unknown rules id :=
  and_congr_left fun _ => h id

theorem Unknown.of_subset {more : List Rule} (h : o.Unknown more id) (hrules : rules ⊆ more) :
    o.Unknown rules id :=
  ⟨h.1, fun rule hrule => h.2 rule (hrules hrule)⟩

/-- The rule ids of options pass if each of them is declared by some descriptor of some rule. If
not, the complaint names the smallest of those that no descriptor declares, in the order of their
bytes. The order of the settings does not matter, and adding rules never brings a complaint. -/
theorem unknownRuleId?_smallest (o : Options) (rules : List Rule) :
    (o.unknownRuleId? rules = none ↔
      ∀ id ∈ o.rules.map Prod.fst, ∃ rule ∈ rules, ∃ d ∈ rule.descriptors, d.id = id) ∧
    (∀ id, o.unknownRuleId? rules = some id ↔
      o.Unknown rules id ∧ ∀ other, o.Unknown rules other → Text.bytes id ≤ Text.bytes other) ∧
    (∀ o' : Options, (∀ id, id ∈ o'.rules.map Prod.fst ↔ id ∈ o.rules.map Prod.fst) →
      o'.unknownRuleId? rules = o.unknownRuleId? rules) ∧
    ∀ more : List Rule, rules ⊆ more →
      o.unknownRuleId? rules = none → o.unknownRuleId? more = none := by
  refine ⟨?_, fun id => ?_, fun o' hkeys => ?_, fun more hrules h => ?_⟩
  · rw [unknownRuleId?_eq_none_iff]
    simp only [Unknown, not_and]
    refine forall₂_congr fun id _ => ?_
    rw [← not_isDeclared_iff, ← isDeclared_iff, Bool.not_eq_true', Bool.not_eq_false]
  · simp only [Text.bytes_le_bytes_iff]
    exact unknownRuleId?_eq_some_iff
  · refine Option.ext fun id => ?_
    rw [unknownRuleId?_eq_some_iff, unknownRuleId?_eq_some_iff]
    simp only [unknown_congr hkeys]
  · rw [unknownRuleId?_eq_none_iff] at *
    exact fun id hid => h id (hid.of_subset hrules)

/-- Two unknown ids of which the later one starts with a byte beyond the others, settings in
another order, and a rule that is added. -/
theorem unknownRuleId?_smallest_sample :
    let rule (ids : List String) : Rule :=
      ⟨ids.map fun id => ⟨id, "", "", .usage, .warning, true, none, []⟩, .ok ⟨[], true, .skip⟩⟩
    let options (ids : List String) : Options :=
      ⟨.concurrent, none, ids.map fun id => (id, ⟨some false, none⟩)⟩
    let rules := [rule [], rule ["A1", "A1", "b3"]]
    let o := options ["é1", "b3", "Z2", "A1"]
    let o' := options ["A1", "Z2", "é1", "b3"]
    o.unknownRuleId? rules = some "Z2" ∧
      ((∀ id, id ∈ o'.rules.map Prod.fst ↔ id ∈ o.rules.map Prod.fst) ∧
        o'.unknownRuleId? rules = o.unknownRuleId? rules) ∧
      rules ⊆ rule ["Z2"] :: rules ∧ (options ["b3"]).unknownRuleId? rules = none ∧
      (options ["b3"]).unknownRuleId? (rule ["Z2"] :: rules) = none := by
  intro rule options rules o o'
  have hsmallest := unknownRuleId?_smallest o rules
  have hknown := unknownRuleId?_smallest (options ["b3"]) rules
  have hkeys : ∀ id, id ∈ o'.rules.map Prod.fst ↔ id ∈ o.rules.map Prod.fst := by
    intro id
    simp only [o, o', options, List.map_cons, List.map_nil, List.mem_cons, List.not_mem_nil]
    tauto
  have hunknown (id : String) : o.Unknown rules id ↔ id = "é1" ∨ id = "Z2" := by
    simp only [Unknown, o, options, rules, rule, List.map_cons, List.map_nil, List.mem_cons,
      List.not_mem_nil, or_false, forall_eq_or_imp, forall_eq, false_implies, implies_true]
    constructor
    · rintro ⟨rfl | rfl | rfl | rfl, -, hA1, -, hb3⟩
      · exact Or.inl rfl
      · exact absurd rfl hb3
      · exact Or.inr rfl
      · exact absurd rfl hA1
    · rintro (rfl | rfl) <;> decide
  have hnone : (options ["b3"]).unknownRuleId? rules = none := by
    refine hknown.1.2 ?_
    simp [options, rules, rule]
  refine ⟨(hsmallest.2.1 "Z2").2 ⟨(hunknown "Z2").2 (Or.inr rfl), fun other hother => ?_⟩,
    ⟨hkeys, hsmallest.2.2.1 o' hkeys⟩, List.subset_cons_self _ _, hnone,
    hknown.2.2.2 _ (List.subset_cons_self _ _) hnone⟩
  rw [Text.bytes_le_bytes_iff]
  rcases (hunknown other).1 hother with rfl | rfl <;> decide

end Options

end OpLint
