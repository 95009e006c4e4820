import OpLint.Proofs.Analysis.Registration

/-!
# Rules do not interfere

The rules of an analysis share a table, an array and counters, and their handlers are called
in turns. Still each rule finds what it would find alone: the calls of one rule among those
of all rules are the calls of an analysis with this rule only, in the same order.

Two things are shown of the calls for a body. Those whose rule stands at a given place are
the calls of the rules at that place; this keeps the order. And all calls together are, up to
their order, those of the rules one by one; this is what counts and multisets need.
-/

namespace OpLint

theorem perm_flatMap_swap {α β γ : Type} (f : α → β → List γ) (as : List α) (bs : List β) :
    (as.flatMap fun a => bs.flatMap (f a)).Perm (bs.flatMap fun b => as.flatMap (f · b)) := by
  induction bs with
  | nil => rw [List.flatMap_eq_nil_iff.2 fun a _ => List.flatMap_nil]; rfl
  | cons b bs ih =>
      simp only [List.flatMap_cons]
      exact (List.flatMap_append_perm as (f · b) fun a => bs.flatMap (f a)).symm.trans
        (ih.append_left _)

/-- If every part holds elements of its own key only, the elements of one key are those of
the parts with this key. -/
theorem filter_flatMap_of_key {α β κ : Type} [DecidableEq κ] {key : α → κ} {keyOf : β → κ}
    {f : α → List β} (hf : ∀ a, ∀ b ∈ f a, keyOf b = key a) (as : List α) (k : κ) :
    ((as.flatMap f).filter fun b => keyOf b = k) = (as.filter fun a => key a = k).flatMap f := by
  rw [List.filter_flatMap, ← flatMap_ite_nil]
  refine List.flatMap_congr fun a _ => ?_
  by_cases h : key a = k
  · rw [if_pos (decide_eq_true h)]
    exact List.filter_eq_self.2 fun b hb => decide_eq_true ((hf a b hb).trans h)
  · rw [if_neg (by simpa using h)]
    refine List.filter_eq_nil_iff.2 fun b hb => ?_
    rw [hf a b hb]
    simpa using h

theorem filter_zipIdx_of_mem {α : Type} {as : List α} {p : α × Nat} (hp : p ∈ as.zipIdx) :
    (as.zipIdx.filter fun q => q.2 = p.2) = [p] := by
  have hpairwise := pairwise_zipIdx as
  obtain ⟨before, after, heq⟩ := List.append_of_mem hp
  rw [heq] at hpairwise ⊢
  obtain ⟨-, hafter, hbefore⟩ := List.pairwise_append.1 hpairwise
  have hnone : (before.filter fun q => q.2 = p.2) = [] := by
    refine List.filter_eq_nil_iff.2 fun q hq => ?_
    have := hbefore q hq p List.mem_cons_self
    simp only [decide_eq_true_eq]
    omega
  have hrest : (after.filter fun q => q.2 = p.2) = [] := by
    refine List.filter_eq_nil_iff.2 fun q hq => ?_
    have := (List.pairwise_cons.1 hafter).1 q hq
    simp only [decide_eq_true_eq]
    omega
  rw [List.filter_append, List.filter_cons, hnone, hrest, if_pos (decide_eq_true rfl)]
  rfl

/-- The place of the rule that a call belongs to, none if it still has to take part. -/
def Call.place? : Call → Option Nat
  | registration .. => none
  | predicate rule .. => some rule.place
  | start rule .. => some rule.place
  | operation _ _ _ handler => some handler.rule.place

namespace Analyzer

def only (a : Analyzer) (rules : List ActiveRule) : Analyzer :=
  { a with rules }

/-! ## The calls of all rules are those of each -/

section

variable (a : Analyzer) {α : Type} (f : α → List ActiveRule) (xs : List α)

theorem filter_analyzes_flatMap (u : CompilationUnit) :
    ((a.only (xs.flatMap f)).rules.filter (·.analyzes u)) =
      xs.flatMap fun x => (a.only (f x)).rules.filter (·.analyzes u) :=
  List.filter_flatMap

theorem registered_flatMap (site : BodyStart) :
    (a.only (xs.flatMap f)).registered site =
      xs.flatMap fun x => (a.only (f x)).registered site := by
  simp only [registered]
  rw [filter_analyzes_flatMap, List.flatMap_assoc]

theorem actionCalls_flatMap (site : BodyStart) :
    (a.only (xs.flatMap f)).actionCalls site =
      xs.flatMap fun x => (a.only (f x)).actionCalls site := by
  simp only [actionCalls]
  rw [filter_analyzes_flatMap, List.flatMap_assoc]

theorem perm_visits_flatMap (site : BodyStart) :
    ((a.only (xs.flatMap f)).visits site).Perm
      (xs.flatMap fun x => (a.only (f x)).visits site) := by
  simp only [visits, registered_flatMap, List.filter_flatMap, List.map_flatMap]
  -- Both sides are two loops, over operations and over parts, but not in the same order.
  exact perm_flatMap_swap _ _ _

/-- Where the rules are put together from parts, so are the calls, up to their order. -/
theorem perm_callsIn_flatMap (u : CompilationUnit) (b : Body) :
    ((a.only (xs.flatMap f)).callsIn u b).Perm
      (xs.flatMap fun x => (a.only (f x)).callsIn u b) := by
  simp only [callsIn]
  cases u.symbols.method? b.method with
  | none =>
      rw [List.flatMap_eq_nil_iff.2 fun x _ => rfl]
  | some method =>
      simp only [calls]
      rw [actionCalls_flatMap]
      refine ((perm_visits_flatMap a f xs _).map _).append_left _ |>.trans ?_
      rw [List.map_flatMap]
      exact List.flatMap_append_perm xs _ _

end

variable (o : Options) (rules : List Rule)

/-- Apart from the places, the calls of all rules are those of each rule alone. -/
theorem perm_callsIn_ofRules (u : CompilationUnit) (b : Body) :
    (((ofRules o rules).callsIn u b).map Recast.unplaced.call).Perm
      (rules.flatMap fun rule =>
        ((ofRules o [rule]).callsIn u b).map Recast.unplaced.call) := by
  -- Without places an analyzer is put together from what each rule gives.
  have hunplaced (rules : List Rule) :
      ((ofRules o rules).callsIn u b).map Recast.unplaced.call =
        Analyzer.callsIn ⟨rules.flatMap fun rule => (activate o rule 0).items, o, 0⟩ u b := by
    rw [← callsIn_recast fun _ _ => rfl, ← unplaced_ofRules]
    rfl
  simp only [hunplaced, List.flatMap_singleton]
  exact perm_callsIn_flatMap ⟨[], o, 0⟩ _ rules u b

theorem cancels_harvestBody_ofRules (u : CompilationUnit) (b : Body) :
    ((ofRules o rules).harvestBody u b).effects.cancels =
      rules.any fun rule => ((ofRules o [rule]).harvestBody u b).effects.cancels := by
  simp only [effects_harvestBody, Effects.ofCalls]
  rw [(perm_callsIn_ofRules o rules u b).any_eq, List.any_flatMap]

/-- What all rules find in a body is, up to the order, what each finds alone. -/
theorem perm_diagnostics_ofRules (u : CompilationUnit) (b : Body) :
    (((ofRules o rules).harvestBody u b).items.map Finding.diagnostic).Perm
      (rules.flatMap fun rule =>
        ((ofRules o [rule]).harvestBody u b).items.map Finding.diagnostic) := by
  have hfound := (perm_callsIn_ofRules o rules u b).flatMap_right fun c =>
    c.found.map Finding.diagnostic
  rw [List.flatMap_assoc] at hfound
  have hadjusted := hfound.map (Diagnostic.adjust o)
  simp only [List.map_flatMap] at hadjusted
  simp only [diagnostics_harvestBody, List.map_flatMap]
  exact hadjusted

theorem perm_diagnostics_alone (u : CompilationUnit) (b : Body) :
    ((ofRules o rules).alone u b).diagnostics.Perm
      (rules.flatMap fun rule => ((ofRules o [rule]).alone u b).diagnostics) := by
  simp only [alone_eq]
  exact perm_diagnostics_ofRules o rules u b

theorem perm_callsOf (units : List CompilationUnit) :
    ((callsOf o rules units).map Recast.unplaced.call).Perm
      (rules.flatMap fun rule => (callsOf o [rule] units).map Recast.unplaced.call) := by
  have hregistrations (rules : List Rule) :
      (rules.filterMap (registrationCall? o)).map Recast.unplaced.call =
        rules.flatMap fun rule => (registrationCall? o rule).toList.map Recast.unplaced.call := by
    rw [List.filterMap_eq_flatMap_toList, List.map_flatMap]
  simp only [callsOf, List.map_append, hregistrations, List.flatMap_singleton, List.map_flatMap]
  have hbodies := List.Perm.flatMap_left (bodiesOf units) fun p _ =>
    perm_callsIn_ofRules o rules p.1 p.2
  exact ((hbodies.trans (perm_flatMap_swap _ _ _)).append_left _).trans
    (List.flatMap_append_perm _ _ _)

/-- If no rule asks for cancellation among others, none does alone. -/
theorem cancels_harvestBody_single {o : Options} {rules : List Rule} {rule : Rule}
    (hrule : rule ∈ rules) {u : CompilationUnit} {b : Body}
    (h : ((ofRules o rules).harvestBody u b).effects.cancels = false) :
    ((ofRules o [rule]).harvestBody u b).effects.cancels = false := by
  rw [cancels_harvestBody_ofRules, List.any_eq_false] at h
  exact Bool.eq_false_iff.2 (h rule hrule)

/-- The failures of a run are those of the runs with one rule. -/
theorem faults_analyze_ofRules {units : List CompilationUnit}
    (h : ∀ p ∈ bodiesOf units,
      ((ofRules o rules).harvestBody p.1 p.2).effects.cancels = false) :
    ((ofRules o rules).analyze false units).faults =
      (rules.map fun rule => ((ofRules o [rule]).analyze false units).faults).sum := by
  have hcount (cs : List Call) :
      cs.countP Call.fails = (cs.map Recast.unplaced.call).countP Call.fails :=
    congrArg Effects.faults (Recast.ofCalls_unplaced cs).symm
  rw [faults_analyze o rules units h, hcount, (perm_callsOf o rules units).countP_eq,
    List.countP_flatMap]
  refine congrArg List.sum (List.map_congr_left fun rule hrule => ?_)
  rw [faults_analyze o [rule] units fun p hp => cancels_harvestBody_single hrule (h p hp), hcount]
  rfl

/-! ## The calls of one rule among all -/

variable (a : Analyzer) (place : Nat)

def atPlace : Analyzer :=
  a.only (a.rules.filter fun rule => rule.place = place)

theorem registered_atPlace (site : BodyStart) :
    (a.atPlace place).registered site =
      (a.registered site).filter fun r => r.rule.place = place := by
  have hrule (rule : ActiveRule) (r : Registered)
      (hr : r ∈ (rule.registration.actions.filter (·.keeps site)).flatMap fun action =>
        (action.start site).output.map (Registered.mk rule)) : r.rule.place = rule.place := by
    obtain ⟨action, -, hr⟩ := List.mem_flatMap.1 hr
    obtain ⟨handler, -, rfl⟩ := List.mem_map.1 hr
    rfl
  rw [registered, registered, filter_flatMap_of_key hrule, List.filter_comm]
  rfl

theorem visits_atPlace (site : BodyStart) :
    (a.atPlace place).visits site =
      (a.visits site).filter fun v => v.2.rule.place = place := by
  rw [visits, visits, List.filter_flatMap]
  refine List.flatMap_congr fun i _ => ?_
  rw [registered_atPlace, List.filter_comm, List.filter_map]
  rfl

theorem actionCalls_atPlace (site : BodyStart) :
    (a.atPlace place).actionCalls site =
      (a.actionCalls site).filter fun c => c.place? = some place := by
  have hrule (rule : ActiveRule) (c : Call)
      (hc : c ∈ rule.registration.actions.flatMap (·.calls rule site)) :
      c.place? = some rule.place := by
    obtain ⟨action, -, hc⟩ := List.mem_flatMap.1 hc
    obtain rfl | rfl := BodyAction.mem_calls hc <;> rfl
  rw [actionCalls, actionCalls, filter_flatMap_of_key hrule, List.filter_comm]
  simp only [Option.some.injEq]
  rfl

/-- The calls of the rules at one place are those calls among all that belong there. -/
theorem callsIn_atPlace (u : CompilationUnit) (b : Body) :
    (a.atPlace place).callsIn u b = (a.callsIn u b).filter fun c => c.place? = some place := by
  rw [callsIn, callsIn]
  cases u.symbols.method? b.method with
  | none => rfl
  | some method =>
      simp only [calls]
      rw [actionCalls_atPlace, visits_atPlace, List.filter_append, List.filter_map]
      simp only [Function.comp_def, Call.place?, Option.some.injEq]

theorem place?_of_mem_found {c : Call} {f : Finding} (h : f ∈ c.found) :
    some f.rule = c.place? := by
  cases c with
  | operation u method i r =>
      rw [Call.found] at h
      split at h
      · cases h
      · obtain ⟨d, -, rfl⟩ := List.mem_map.1 h
        rfl
  | _ => cases h

theorem flatMap_found_callsIn_atPlace (u : CompilationUnit) (b : Body) :
    ((a.atPlace place).callsIn u b).flatMap Call.found =
      ((a.callsIn u b).flatMap Call.found).filter fun f => f.rule = place := by
  have hkey := filter_flatMap_of_key (fun c f hf => place?_of_mem_found (c := c) (f := f) hf)
    (a.callsIn u b) (some place)
  rw [callsIn_atPlace, ← hkey]
  simp only [Option.some.injEq]

/-- What the rules at one place find among others is what they find alone. -/
theorem items_harvestBody_atPlace (u : CompilationUnit) (b : Body) :
    ((a.atPlace place).harvestBody u b).items =
      (a.harvestBody u b).items.filter fun f => f.rule = place := by
  rw [harvestBody_eq_calls, harvestBody_eq_calls]
  simp only [flatMap_found_callsIn_atPlace, List.filter_map]
  rfl

theorem rules_atPlace {rule : Rule} {place : Nat} (h : (rule, place) ∈ rules.zipIdx) :
    ((ofRules o rules).atPlace place).rules = (activate o rule place).items := by
  show (ofRules o rules).rules.filter _ = _
  rw [rules_ofRules, filter_flatMap_of_key fun p _ => place_of_mem_activate,
    filter_zipIdx_of_mem h, List.flatMap_singleton]

/-- What a rule finds in a body among others is what it finds alone, in the same order. -/
theorem diagnostics_of_place {rule : Rule} {place : Nat} (h : (rule, place) ∈ rules.zipIdx)
    (u : CompilationUnit) (b : Body) :
    ((((ofRules o rules).harvestBody u b).items.filter fun f => f.rule = place).map
        Finding.diagnostic) =
      ((ofRules o [rule]).harvestBody u b).items.map Finding.diagnostic := by
  have hrules : ((ofRules o rules).atPlace place).rules.map ActiveRule.unplaced =
      (ofRules o [rule]).rules.map ActiveRule.unplaced := by
    rw [rules_atPlace o rules h, unplaced_activate, unplaced_ofRules, List.flatMap_singleton]
  rw [← items_harvestBody_atPlace]
  exact (harvestBody_congr hrules rfl u b).1

end Analyzer

open Analyzer

namespace Sample

def otherDiagnostic : Diagnostic := { diagnostic with code := "S2", message := "Another." }

/-- A rule that reports the literal too, and does not fail. -/
def otherRule : Rule where
  descriptors := [descriptor]
  registration := .ok
    ⟨[⟨fun _ => .ofOutput true, fun _ =>
      .ofOutput [⟨.literal, fun _ => .ofOutput [otherDiagnostic]⟩]⟩], true, .analyzeAndReport⟩

theorem harvestBody_twoRules :
    (ofRules .default [rule, otherRule]).harvestBody unit body =
      ⟨[⟨0, diagnostic⟩, ⟨1, otherDiagnostic⟩], 1, false,
        [.handlerFailed "S1" (Ref.ofPosition 1).text (Fault.text "no").message]⟩ := by
  rw [harvestBody_eq_calls, callsIn_eq, visits_eq]
  rfl

end Sample

/-- Rules do not interfere. If nothing asks for cancellation, what a rule finds in a run is, in
the same order, all that a run with this rule alone finds. So in every body the rules find
together what they find one by one, however they are ordered or split; and the failures of a
run are those of the runs with one rule. -/
theorem analyze_one_by_one (o : Options) (rules : List Rule) (units : List CompilationUnit)
    (h : ((ofRules o rules).run false units).stopping = false) :
    let a := ofRules o rules
    (∀ rule place, (rule, place) ∈ rules.zipIdx →
        ((a.run false units).sink.sorted.filter fun f => f.rule = place).map Finding.diagnostic =
          ((ofRules o [rule]).analyze false units).diagnostics) ∧
      (a.analyze false units).diagnostics =
        (a.run false units).sink.sorted.map Finding.diagnostic ∧
      (a.analyze false units).diagnostics =
        ((bodiesOf units).flatMap fun p => (a.alone p.1 p.2).diagnostics) ∧
      (∀ rules', rules.Perm rules' → ∀ u b,
        (a.alone u b).diagnostics.Perm ((ofRules o rules').alone u b).diagnostics) ∧
      (∀ xs ys, rules.Perm (xs ++ ys) → ∀ u b,
        (a.alone u b).diagnostics.Perm
          (((ofRules o xs).alone u b).diagnostics ++ ((ofRules o ys).alone u b).diagnostics)) ∧
      (a.analyze false units).faults =
        (rules.map fun rule => ((ofRules o [rule]).analyze false units).faults).sum := by
  intro a
  have hcancels := a.stopping_run_eq_false_iff.1 h
  refine ⟨?_, rfl, ?_, ?_, ?_, faults_analyze_ofRules o rules hcancels⟩
  · intro rule place hmem
    have hrule : rule ∈ rules := List.mem_of_getElem? (List.mem_zipIdx_iff_getElem?.1 hmem)
    have hsingle : ∀ p ∈ bodiesOf units,
        ((ofRules o [rule]).harvestBody p.1 p.2).effects.cancels = false :=
      fun p hp => cancels_harvestBody_single hrule (hcancels p hp)
    obtain ⟨hsorted, -⟩ := a.runOver_eq (.refl (workItems units)) hcancels
    rw [run, hsorted, analyze, run, outcome_runOver _ (.refl _) hsingle, List.filter_flatMap,
      List.map_flatMap]
    exact List.flatMap_congr fun p _ => diagnostics_of_place o rules hmem p.1 p.2
  · rw [analyze, run, outcome_runOver _ (.refl _) hcancels]
    simp only [alone_eq]
  · intro rules' hperm u b
    exact (perm_diagnostics_alone o rules u b).trans
      ((hperm.flatMap_right _).trans (perm_diagnostics_alone o rules' u b).symm)
  · intro xs ys hperm u b
    refine (perm_diagnostics_alone o rules u b).trans ((hperm.flatMap_right _).trans ?_)
    rw [List.flatMap_append]
    exact ((perm_diagnostics_alone o xs u b).append (perm_diagnostics_alone o ys u b)).symm

theorem analyze_one_by_one_sample :
    ((ofRules .default [Sample.rule, Sample.otherRule]).run false [Sample.unit]).stopping = false ∧
      ((ofRules .default [Sample.rule]).analyze false [Sample.unit]).diagnostics =
        [Sample.diagnostic] ∧
      ((ofRules .default [Sample.otherRule]).analyze false [Sample.unit]).diagnostics =
        [Sample.otherDiagnostic] := by
  have hcancels := congrArg (·.effects.cancels) Sample.harvestBody_twoRules
  have hstopping := Sample.stopping_run (fun _ => List.mem_singleton.1) hcancels
  obtain ⟨hplaces, -⟩ := analyze_one_by_one .default [Sample.rule, Sample.otherRule] [Sample.unit]
    hstopping
  rw [Sample.sorted_run hcancels, Sample.harvestBody_twoRules] at hplaces
  refine ⟨hstopping, ?_, ?_⟩
  · exact (hplaces Sample.rule 0 List.mem_cons_self).symm
  · exact (hplaces Sample.otherRule 1 (List.mem_cons_of_mem _ List.mem_cons_self)).symm

end OpLint
