import OpLint.Proofs.Analysis.GeneratedCode
import OpLint.Proofs.Rule.InfiniteRecursion
import OpLint.Proofs.Unit.Checked
import OpLint.Proofs.Unit.RoundTrip

/-!
# The analysis finds the self-assignments of setters

With the built-in rules and the default options, what an analysis finds can be read off
the trees of the bodies. In the body of a setter every assignment of its own property on
the running instance is reported once, in pre-order, and nothing else is; and the report is
definite unless a conditional or a function encloses the assignment.

The way there goes through every stage of an analysis, and each stage has its own lemma
elsewhere: the run puts the bodies in order, the scan asks the handler of the rule about the
assignments, and the handler answers what the tree says.
-/

namespace OpLint

open InfiniteRecursion

/-- The self-assignments in a body, as its tree shows them. -/
def CompilationUnit.selfAssignments (u : CompilationUnit) (b : Body) : List Diagnostic :=
  match u.symbols.method? b.method with
  | some ⟨_, _, .propertySet, some own⟩ =>
    match u.symbols.property? own, b.root.position?.bind u.forest.tree? with
    | some property, some body =>
      (body.occurrences []).filterMap fun (above, t) =>
        if t.assignedProperty? = some own then
          some (report u.file property t.span (Tree.defers above))
        else none
    | _, _ => []
  | _ => []

/-- The analyzer of the built-in rules under the default options. -/
def Analyzer.builtIn : Analyzer :=
  .ofRules .default Rule.builtIn

variable {u : CompilationUnit} {b : Body} {m : Method}

/-! ## The one rule -/

/-- The built-in rule as it takes part. -/
def activeRule : ActiveRule :=
  ⟨0, ruleId, ⟨[setterAction], true, .skip⟩⟩

/-- The rule takes part if its id is enabled. Both descriptors have this one. -/
theorem rules_ofRules_builtIn (o : Options) :
    (Analyzer.ofRules o Rule.builtIn).rules =
      if o.isEnabled definite then [activeRule.under (o.generatedCode.getD .skip)] else [] := by
  have hid : possible.id = definite.id := Eq.trans (b := ruleId) rfl rfl
  have henabled : possible.enabled = definite.enabled := Eq.trans (b := true) rfl rfl
  have hpossible : o.isEnabled possible = o.isEnabled definite := by
    rw [Options.isEnabled, Options.isEnabled, hid, henabled]
  have hdescriptors : rule.descriptors.any o.isEnabled = o.isEnabled definite := by
    show (o.isEnabled definite || (o.isEnabled possible || false)) = _
    rw [hpossible, Bool.or_false, Bool.or_self]
  rw [Analyzer.rules_ofRules]
  show (Analyzer.activate o rule 0).items ++ [] = _
  rw [List.append_nil, Analyzer.activate]
  show (if rule.descriptors.any o.isEnabled = true then _ else _ : Harvest ActiveRule).items = _
  rw [hdescriptors]
  split <;> rfl

/-- The handler of the rule for a body. -/
def setterHandler (m : Method) : Registered :=
  ⟨activeRule, ⟨.simpleAssignment, visitAssignment m⟩⟩

theorem handlers_activeRule (p : GeneratedCodePolicy) (site : BodyStart) :
    (activeRule.under p).handlers site =
      if site.method.isSetter then [(Recast.under p).registered (setterHandler site.method)]
      else [] := by
  have hkeeps : setterAction.keeps site = site.method.isSetter := Bool.and_true _
  have hactions : (activeRule.under p).registration.actions = [setterAction] := rfl
  rw [ActiveRule.handlers, hactions, List.flatMap_singleton, BodyAction.given, hkeeps]
  split <;> rfl

theorem fault_visitAssignment (v : Visit) : (visitAssignment m v).fault = none := by
  rw [visitAssignment]
  split <;> rfl

theorem cancels_visitAssignment (v : Visit) : (visitAssignment m v).cancels = false := by
  rw [visitAssignment]
  split <;> rfl

/-- Operations other than assignments give nothing. -/
theorem output_visitAssignment_of_kind_ne {i : Nat} {node : Node}
    (hnode : u.forest.node? i = some node) (hkind : node.operation.kind ≠ .simpleAssignment) :
    (visitAssignment m ⟨u, m, i⟩).output = [] := by
  have hfound : selfAssignment? u m i = none := by
    obtain ⟨op, span, parent⟩ := node
    rw [selfAssignment?, hnode]
    cases op <;> first | rfl | exact absurd rfl hkind
  rw [visitAssignment, hfound]
  rfl

theorem output_visitAssignment_of_none {i : Nat} (hnode : u.forest.node? i = none) :
    (visitAssignment m ⟨u, m, i⟩).output = [] := by
  rw [visitAssignment, selfAssignment?, hnode]
  rfl

/-! ## A body -/

/-- Walking the body of a setter gives the self-assignments of its tree. -/
theorem flatMap_output_visitAssignment (h : u.Checked) (hb : b ∈ u.bodies)
    (hmethod : u.symbols.method? b.method = some m) (hsetter : m.kind = .propertySet) :
    ((u.forest.descendants b.root).flatMap fun i => (visitAssignment m ⟨u, m, i⟩).output) =
      u.selfAssignments b := by
  obtain ⟨root, hroot, hsize, hparent⟩ := h.roots b hb
  obtain ⟨own, property, hown, hproperty⟩ := h.setters b.method m hmethod hsetter
  obtain ⟨t, ht⟩ := Forest.exists_tree? h.linked hsize
  have hoccurrences := Forest.occurrences_tree? h.linked root ht
  rw [Forest.enclosing_eq_nil hparent] at hoccurrences
  have hspec : u.selfAssignments b = (t.occurrences []).filterMap fun (above, s) =>
      if s.assignedProperty? = some own then
        some (report u.file property s.span (Tree.defers above))
      else none := by
    obtain ⟨name, type, kind, method⟩ := m
    subst hsetter hown
    have hbody : b.root.position?.bind u.forest.tree? = some t := by rw [hroot]; exact ht
    simp only [CompilationUnit.selfAssignments, hmethod, hproperty, hbody]
  rw [hspec, hoccurrences, Forest.descendants_eq hroot hsize, List.filterMap_filterMap,
    List.filterMap_eq_flatMap_toList]
  refine List.flatMap_congr fun i _ => ?_
  cases hi : u.forest.tree? i with
  | none =>
      have hnode : u.forest.node? i = none := by
        rw [Forest.tree?_eq h.linked] at hi
        exact Option.map_eq_none_iff.1 hi
      rw [output_visitAssignment_of_none hnode]
      rfl
  | some s =>
      rw [output_visitAssignment h.linked hi hsetter hown hproperty]
      simp only [Option.map_some, Option.bind_some]
      split <;> rfl

theorem selfAssignments_of_kind_ne (hmethod : u.symbols.method? b.method = some m)
    (hkind : m.kind ≠ .propertySet) : u.selfAssignments b = [] := by
  rw [CompilationUnit.selfAssignments, hmethod]
  split
  · next hm =>
      cases hm
      exact absurd rfl hkind
  · rfl

/-- What the rule reports in a body are the self-assignments of its tree, whatever the policy. -/
theorem flatMap_reported_activeRule (h : u.Checked) (hb : b ∈ u.bodies)
    (p : GeneratedCodePolicy) :
    ((activeRule.under p).callsIn u b).flatMap Call.reported = u.selfAssignments b := by
  obtain ⟨m, hmethod⟩ := h.methods b hb
  have hasked : ((activeRule.under p).registration.actions.flatMap
      (·.calls (activeRule.under p) ⟨u, b, m⟩)).flatMap Call.reported = [] := by
    refine List.flatMap_eq_nil_iff.2 fun c hc => ?_
    obtain ⟨action, -, hc⟩ := List.mem_flatMap.1 hc
    obtain rfl | rfl := BodyAction.mem_calls hc <;> rfl
  have hvisit (i : Nat) :
      (Call.operation u m i ((Recast.under p).registered (setterHandler m))).reported =
        (visitAssignment m ⟨u, m, i⟩).output := by
    show (if (visitAssignment m ⟨u, m, i⟩).fault.isSome = true then _ else _) = _
    rw [fault_visitAssignment]
    rfl
  rw [ActiveRule.callsIn, hmethod]
  simp only
  rw [List.flatMap_append, hasked, List.nil_append, handlers_activeRule, List.flatMap_assoc]
  by_cases hsetter : m.isSetter = true
  · have hkind : m.kind = .propertySet := by simpa [Method.isSetter] using hsetter
    rw [if_pos hsetter, ← flatMap_output_visitAssignment h hb hmethod hkind]
    refine List.flatMap_congr fun i _ => ?_
    rw [Forest.kind?]
    cases hnode : u.forest.node? i with
    | none =>
        rw [output_visitAssignment_of_none hnode]
        rfl
    | some node =>
        by_cases hassignment : node.operation.kind = .simpleAssignment
        · have hkept : ([(Recast.under p).registered (setterHandler m)].filter fun x =>
              some node.operation.kind = some x.handler.kind) =
                [(Recast.under p).registered (setterHandler m)] := by
            rw [hassignment]
            rfl
          rw [Option.map_some, hkept, List.map_singleton, List.flatMap_singleton, hvisit]
        · rw [output_visitAssignment_of_kind_ne hnode hassignment]
          simp [hassignment, setterHandler, Recast.registered, Recast.under, Recast.ofRule]
  · have hkind : m.kind ≠ .propertySet := by simpa [Method.isSetter] using hsetter
    rw [if_neg hsetter, selfAssignments_of_kind_ne hmethod hkind]
    exact List.flatMap_eq_nil_iff.2 fun _ _ => rfl

/-- No callback of the rule fails or asks for cancellation. -/
theorem of_mem_callsIn_activeRule {p : GeneratedCodePolicy} {c : Call}
    (h : c ∈ (activeRule.under p).callsIn u b) : c.fails = false ∧ c.cancels = false := by
  have hactions : (activeRule.under p).registration.actions = [setterAction] := rfl
  rw [ActiveRule.callsIn, hactions] at h
  split at h
  · cases h
  · rcases List.mem_append.1 h with h | h
    · rw [List.flatMap_singleton] at h
      obtain rfl | rfl := BodyAction.mem_calls h <;> exact ⟨rfl, rfl⟩
    · obtain ⟨i, -, h⟩ := List.mem_flatMap.1 h
      obtain ⟨x, hx, rfl⟩ := List.mem_map.1 h
      have hx := List.mem_of_mem_filter hx
      rw [handlers_activeRule] at hx
      split at hx
      · rw [List.mem_singleton.1 hx]
        exact ⟨congrArg Option.isSome (fault_visitAssignment _), cancels_visitAssignment _⟩
      · cases hx

/-- What is found in a body of a checked unit, under any options. -/
theorem harvestBody_builtIn (o : Options) (h : u.Checked) (hb : b ∈ u.bodies) :
    let a := Analyzer.ofRules o Rule.builtIn
    let policy := o.generatedCode.getD .skip
    (a.harvestBody u b).items.map Finding.diagnostic =
        (if o.isEnabled definite && !(u.generated && policy ≠ .analyzeAndReport) then
          (u.selfAssignments b).map (Diagnostic.adjust o) else []) ∧
      (a.harvestBody u b).effects.faults = 0 ∧ (a.harvestBody u b).effects.cancels = false := by
  intro a policy
  have hrules := rules_ofRules_builtIn o
  have hcalm : ∀ c ∈ a.callsIn u b, c.fails = false ∧ c.cancels = false := by
    intro c hc
    obtain ⟨r, hr, hc⟩ := Analyzer.exists_rule_of_mem_callsIn hc
    rw [hrules] at hr
    split at hr
    · rw [List.mem_singleton.1 hr] at hc
      exact of_mem_callsIn_activeRule hc
    · cases hr
  refine ⟨?_, ?_, ?_⟩
  · cases henabled : o.isEnabled definite with
    | false =>
        rw [henabled] at hrules
        have hcalls := a.perm_callsIn u b
        rw [show a.rules = _ from hrules] at hcalls
        rw [Analyzer.harvestBody_eq_calls, List.perm_nil.1 hcalls]
        rfl
    | true =>
        rw [henabled] at hrules
        have honly : a = a.only [activeRule.under policy] := congrArg a.only hrules
        rw [honly, Analyzer.diagnostics_harvestBody_only, flatMap_reported_activeRule h hb,
          ActiveRule.reports_eq]
        rfl
  · rw [Analyzer.harvestBody_eq_calls]
    exact List.countP_eq_zero.2 fun c hc => by rw [(hcalm c hc).1]; exact Bool.false_ne_true
  · rw [Analyzer.harvestBody_eq_calls]
    exact List.any_eq_false.2 fun c hc => by rw [(hcalm c hc).2]; exact Bool.false_ne_true

/-! ## The whole analysis -/

theorem CompilationUnit.checked_of_ofText {text : String} (h : ofText text = .ok u) : u.Checked :=
  checked_of_check ((load_parts_eq_ok_iff u).1 (load_parts_of_ofText h)).1

theorem diagnostics_harvestBody_default (h : u.Checked) (hb : b ∈ u.bodies) :
    (Analyzer.builtIn.harvestBody u b).items.map Finding.diagnostic =
      if u.generated then [] else u.selfAssignments b := by
  have hadjust : Diagnostic.adjust .default = id := rfl
  refine (harvestBody_builtIn .default h hb).1.trans ?_
  rw [hadjust, List.map_id]
  cases u.generated <;> rfl

theorem flatMap_harvestBody_builtIn (h : u.Checked) :
    (u.bodies.flatMap fun b =>
        (Analyzer.builtIn.harvestBody u b).items.map Finding.diagnostic) =
      if u.generated then [] else u.bodies.flatMap u.selfAssignments := by
  rw [List.flatMap_congr fun b hb => diagnostics_harvestBody_default h hb]
  cases u.generated with
  | true => simp
  | false => rfl

theorem flatMap_unless {α β : Type} (p : α → Bool) (g : α → List β) (as : List α) :
    (as.flatMap fun a => if p a then [] else g a) = (as.filter (!p ·)).flatMap g := by
  rw [← flatMap_ite_nil]
  refine List.flatMap_congr fun a _ => ?_
  cases p a <;> rfl

/-- With the built-in rules and the default options an analysis finds the self-assignments
of the units that no code generator made, unit by unit and body by body, and nothing else.
It does not matter in which order the bodies are taken. -/
theorem diagnostics_analyze_builtIn (units : List CompilationUnit)
    (h : ∀ u ∈ units, ∃ text, CompilationUnit.ofText text = .ok u) :
    (Analyzer.builtIn.analyze false units).diagnostics =
        ((units.filter (!·.generated)).flatMap fun u => u.bodies.flatMap u.selfAssignments) ∧
      ∀ work, work.Perm (workItems units) →
        ((Analyzer.builtIn.runOver false work).outcome Analyzer.builtIn).diagnostics =
          (Analyzer.builtIn.analyze false units).diagnostics := by
  have hchecked : ∀ u ∈ units, u.Checked := by
    intro u hu
    obtain ⟨text, htext⟩ := h u hu
    exact CompilationUnit.checked_of_ofText htext
  have hcancels : ∀ u ∈ units, ∀ b ∈ u.bodies,
      (Analyzer.builtIn.harvestBody u b).effects.cancels = false :=
    fun u hu b hb => (harvestBody_builtIn .default (hchecked u hu) hb).2.2
  refine ⟨?_, fun work hwork => ?_⟩
  · rw [Analyzer.analyze, Analyzer.run, Analyzer.diagnostics_runOver _ (.refl _) hcancels,
      List.flatMap_congr fun u hu => flatMap_harvestBody_builtIn (hchecked u hu),
      flatMap_unless]
  · rw [Analyzer.analyze, Analyzer.run, Analyzer.diagnostics_runOver _ hwork hcancels,
      Analyzer.diagnostics_runOver _ (.refl _) hcancels]

/-- A setter that does nothing but assign its property. -/
def recursiveSetter : CompilationUnit where
  file := "a.cs"
  generated := false
  source := none
  symbols := ⟨#[⟨"P", "T", false, .empty⟩], #[⟨"set_P", "T", .propertySet, some 0⟩]⟩
  bodies := [⟨0, ⟨3⟩⟩]
  forest := ⟨#[⟨.instanceReference .containingTypeInstance true, .empty, some 1⟩,
    ⟨.propertyReference 0 ⟨0⟩ [], .empty, some 3⟩, ⟨.parameterReference "value", .empty, some 3⟩,
    ⟨.simpleAssignment ⟨1⟩ ⟨2⟩, ⟨3, 9⟩, none⟩]⟩

/-- The tree of its body. -/
def setterTree : Tree :=
  .node (.simpleAssignment
    (some (.node (.propertyReference 0
      (some (.node (.instanceReference .containingTypeInstance true) .empty)) []) .empty))
    (some (.node (.parameterReference "value") .empty))) ⟨3, 9⟩

/-- It does not matter where the four operations of the tree are stored. -/
theorem tree?_eq_setterTree {u : CompilationUnit} (h : u.forest.Linked)
    {root target this value : Ref} {p q r s : Option Nat}
    (hroot : u.forest.get? root = some ⟨.simpleAssignment target value, ⟨3, 9⟩, p⟩)
    (htarget : u.forest.get? target = some ⟨.propertyReference 0 this [], .empty, q⟩)
    (hthis : u.forest.get? this =
      some ⟨.instanceReference .containingTypeInstance true, .empty, r⟩)
    (hvalue : u.forest.get? value = some ⟨.parameterReference "value", .empty, s⟩) :
    root.position?.bind u.forest.tree? = some setterTree := by
  have hreceiver := map_operation_get? h this
  have hreference := map_operation_get? h target
  have hparameter := map_operation_get? h value
  rw [hthis] at hreceiver
  rw [htarget, Option.map_some, Operation.map, hreceiver] at hreference
  rw [hvalue] at hparameter
  rw [map_operation_get? h, hroot, Option.map_some, Operation.map, hreference, hparameter]
  rfl

theorem tree?_recursiveSetter :
    (Ref.mk 3).position?.bind recursiveSetter.forest.tree? = some setterTree :=
  tree?_eq_setterTree (Forest.check_eq_ok_iff.1 rfl) rfl rfl rfl rfl

theorem selfAssignments_recursiveSetter :
    recursiveSetter.selfAssignments ⟨0, ⟨3⟩⟩ =
      [report "a.cs" ⟨"P", "T", false, .empty⟩ ⟨3, 9⟩ false] := by
  rw [CompilationUnit.selfAssignments, tree?_recursiveSetter]
  simp [setterTree, recursiveSetter, Symbols.method?, Symbols.property?, Tree.occurrences_eq,
    Tree.children, Tree.operation, Tree.span, Operation.refs, Tree.assignedProperty?,
    Tree.ownProperty?, Tree.defers]

theorem diagnostics_analyze_recursiveSetter :
    ((Analyzer.ofRules .default Rule.builtIn).analyze false [recursiveSetter]).diagnostics =
      [report "a.cs" ⟨"P", "T", false, .empty⟩ ⟨3, 9⟩ false] := by
  have hread : ∀ u ∈ [recursiveSetter], ∃ text, CompilationUnit.ofText text = .ok u := by
    intro u hu
    rw [List.mem_singleton.1 hu]
    exact ⟨_, (CompilationUnit.ofText_text_eq_ok_iff_load _).2 rfl⟩
  rw [← Analyzer.builtIn, (diagnostics_analyze_builtIn _ hread).1]
  exact congrArg (· ++ [] ++ []) selfAssignments_recursiveSetter

end OpLint
