import OpLint.Proofs.Analysis.Run
import OpLint.Proofs.Analysis.Scan

/-!
# The calls of an analysis

All that an analysis does with rules is to call them. `Call` is one callback together with
what it is called for, and `Analyzer.calls` lists the calls for a body as nested loops say
them: the actions of each rule in turn, then for each operation the handlers of its kind.
There is no table in these loops, no array that the handlers share and no state that one
call could leave for the next.

The analysis of a body gives what these calls give, in their order. What is said about
rules afterwards is said about this list: what they found is put together from it, failures
are counted along it, and two analyses are compared call by call.
-/

namespace OpLint

/-- A callback, with what it is called for. -/
inductive Call
  /-- The rule of that name registers its actions. -/
  | registration (id : String) (rule : Rule)
  | predicate (rule : ActiveRule) (action : BodyAction) (method : Method)
  | start (rule : ActiveRule) (action : BodyAction) (site : BodyStart)
  | operation (unit : CompilationUnit) (method : Method) (place : Nat) (handler : Registered)

namespace Call

def fault? : Call → Option Fault
  | registration _ rule =>
    match rule.registration with
    | .error fault => some fault
    | .ok _ => none
  | predicate _ action method => (action.accepts method).fault
  | start _ action site => (action.start site).fault
  | operation u method i r => (r.handler.run ⟨u, method, i⟩).fault

def fails (c : Call) : Bool :=
  c.fault?.isSome

/-- Whether the callback asks for the analysis to be cancelled. -/
def cancels : Call → Bool
  | registration .. => false
  | predicate _ action method => (action.accepts method).cancels
  | start _ action site => (action.start site).cancels
  | operation u method i r => (r.handler.run ⟨u, method, i⟩).cancels

def logged : Call → List Event
  | registration .. => []
  | predicate _ action method => (action.accepts method).events
  | start _ action site => (action.start site).events
  | operation u method i r => (r.handler.run ⟨u, method, i⟩).events

/-- What is logged if the callback fails that way. -/
def failure : Call → Fault → Event
  | registration id _, fault => .registrationFailed id fault.message
  | predicate rule _ _, fault => .predicateFailed rule.id fault.message
  | start rule _ _, fault => .startFailed rule.id fault.message
  | operation _ _ i r, fault => .handlerFailed r.rule.id (Ref.ofPosition i).text fault.message

def events (c : Call) : List Event :=
  c.logged ++ c.fault?.toList.map c.failure

/-- The findings that the call leaves behind. -/
def found : Call → List Finding
  | operation u method i r =>
    let response := r.handler.run ⟨u, method, i⟩
    if response.fault.isSome || !r.rule.reports u then []
    else response.output.map (Finding.mk r.rule.place)
  | _ => []

end Call

def Effects.ofCalls (calls : List Call) : Effects :=
  ⟨calls.countP Call.fails, calls.any Call.cancels, calls.flatMap Call.events⟩

theorem Effects.ofCalls_append (cs ds : List Call) :
    ofCalls (cs ++ ds) = (ofCalls cs).andThen (ofCalls ds) := by
  simp only [ofCalls, andThen, List.countP_append, List.any_append, List.flatMap_append]

theorem Effects.ofCalls_map {f : Call → Call} (hfails : ∀ c, (f c).fails = c.fails)
    (hcancels : ∀ c, (f c).cancels = c.cancels) (hevents : ∀ c, (f c).events = c.events)
    (cs : List Call) : ofCalls (cs.map f) = ofCalls cs := by
  rw [ofCalls, ofCalls, List.countP_map, List.any_map, List.flatMap_map]
  simp only [Function.comp_def, hfails, hcancels, hevents]

/-- Where the effects of each part are those of some calls, the effects of the whole are
those of all these calls. -/
theorem Harvest.effects_gather {α β : Type} {f : β → Harvest α} {calls : β → List Call}
    (h : ∀ b, (f b).effects = .ofCalls (calls b)) (bs : List β) :
    (gather f bs).effects = .ofCalls (bs.flatMap calls) := by
  induction bs with
  | nil => rfl
  | cons b bs ih =>
      show (f b).effects.andThen (gather f bs).effects = _
      rw [h b, ih, List.flatMap_cons, Effects.ofCalls_append]

theorem flatMap_ite_nil {α β : Type} (p : α → Bool) (g : α → List β) (as : List α) :
    (as.flatMap fun a => if p a then g a else []) = (as.filter p).flatMap g := by
  induction as with
  | nil => rfl
  | cons a as ih =>
      rw [List.flatMap_cons, ih, List.filter_cons]
      split
      · rw [List.flatMap_cons]
      · rw [List.nil_append]

/-- What happens in a call, said by the response of its callback. -/
theorem Response.effects_eq {α : Type} (r : Response α) (failed : String → Event) (c : Call)
    (hfault : c.fault? = r.fault) (hcancels : c.cancels = r.cancels)
    (hlogged : c.logged = r.events) (hfailure : ∀ fault, c.failure fault = failed fault.message) :
    r.effects failed = .ofCalls [c] := by
  have hevents : c.events = r.events ++ r.fault.toList.map fun fault => failed fault.message := by
    rw [Call.events, hlogged, hfault, funext hfailure]
  rw [Response.effects, Effects.ofCalls, List.countP_singleton, List.flatMap_singleton, hevents,
    Call.fails, hfault]
  simp only [List.any_cons, List.any_nil, Bool.or_false, hcancels]

/-! ## Asking the actions -/

namespace BodyAction

variable (action : BodyAction) (rule : ActiveRule) (site : BodyStart)

/-- The calls of an action for a body. -/
def calls : List Call :=
  .predicate rule action site.method ::
    if (action.accepts site.method).isYes then [.start rule action site] else []

/-- Whether the action wants the body and starts it without failing. -/
def keeps : Bool :=
  (action.accepts site.method).isYes && (action.start site).fault.isNone

theorem mem_calls {action : BodyAction} {rule : ActiveRule} {site : BodyStart} {c : Call}
    (h : c ∈ action.calls rule site) :
    c = .predicate rule action site.method ∨ c = .start rule action site := by
  rw [calls] at h
  split at h
  · simpa using h
  · exact Or.inl (List.mem_singleton.1 h)

theorem effects_ask : (action.ask rule site).effects = .ofCalls (action.calls rule site) := by
  have hanswer : (action.accepts site.method).effects (.predicateFailed rule.id) =
      .ofCalls [.predicate rule action site.method] :=
    Response.effects_eq _ _ _ rfl rfl rfl fun _ => rfl
  have hstart : (action.start site).effects (.startFailed rule.id) =
      .ofCalls [.start rule action site] :=
    Response.effects_eq _ _ _ rfl rfl rfl fun _ => rfl
  rw [ask, calls]
  split
  · show ((action.accepts site.method).effects _).andThen ((action.start site).effects _) = _
    rw [hanswer, hstart, ← Effects.ofCalls_append]
    rfl
  · exact hanswer

theorem items_ask :
    (action.ask rule site).items =
      if action.keeps site then (action.start site).output.map (Registered.mk rule) else [] := by
  rw [ask, keeps]
  cases (action.accepts site.method).isYes with
  | false => rfl
  | true =>
      show [] ++ (action.registered rule site).items = _
      rw [List.nil_append, registered]
      cases (action.start site).fault <;> rfl

end BodyAction

namespace Analyzer

variable (a : Analyzer) (site : BodyStart)

/-- The handlers that are registered for a body, in order: rule by rule, then action by
action, then as the action gives them. -/
def registered : List Registered :=
  (a.rules.filter (·.analyzes site.unit)).flatMap fun rule =>
    (rule.registration.actions.filter (·.keeps site)).flatMap fun action =>
      (action.start site).output.map (Registered.mk rule)

/-- The calls of the actions for a body. -/
def actionCalls : List Call :=
  (a.rules.filter (·.analyzes site.unit)).flatMap fun rule =>
    rule.registration.actions.flatMap (·.calls rule site)

theorem items_handlers : (a.handlers site).items = a.registered site := by
  rw [handlers, registered, Harvest.items_gather]
  refine List.flatMap_congr fun rule _ => ?_
  rw [Harvest.items_gather, ← flatMap_ite_nil]
  exact List.flatMap_congr fun action _ => action.items_ask rule site

theorem effects_handlers : (a.handlers site).effects = .ofCalls (a.actionCalls site) := by
  rw [handlers, actionCalls]
  refine Harvest.effects_gather (fun rule => ?_) _
  exact Harvest.effects_gather (fun action => action.effects_ask rule site) _

end Analyzer

/-! ## Visiting the operations -/

/-- The kind of the operation at a place. -/
def Forest.kind? (f : Forest) (i : Nat) : Option OperationKind :=
  (f.node? i).map (·.operation.kind)

theorem invocations_eq (f : Forest) (root : Ref) (rs : List Registered) :
    invocations f root rs = (f.descendants root).flatMap fun i =>
      (rs.filter fun r => f.kind? i = some r.handler.kind).map (i, ·) := by
  refine List.flatMap_congr fun i _ => ?_
  rw [Forest.kind?]
  cases f.node? i with
  | none =>
      have hnone : (rs.filter fun r => (none : Option OperationKind) = some r.handler.kind) = [] :=
        List.filter_eq_nil_iff.2 fun r _ => by simp
      simp only [Option.map_none, hnone, List.map_nil]
  | some node =>
      simp only [DispatchTable.handlersOf_ofHandlers, Option.map_some, Option.some.injEq, eq_comm]

namespace Analyzer

variable (a : Analyzer) (site : BodyStart)

/-- The handlers that are called for a body, each with the place that it is called for: for
each operation in pre-order those that are registered for its kind. -/
def visits : List (Nat × Registered) :=
  (site.unit.forest.descendants site.body.root).flatMap fun i =>
    ((a.registered site).filter fun r => site.unit.forest.kind? i = some r.handler.kind).map (i, ·)

/-- All calls for a body. -/
def calls : List Call :=
  a.actionCalls site ++
    (a.visits site).map fun (i, r) => .operation site.unit site.method i r

theorem invocations_handlers :
    invocations site.unit.forest site.body.root (a.handlers site).items = a.visits site := by
  rw [items_handlers, invocations_eq]
  rfl

end Analyzer

theorem Registered.invoke_eq (r : Registered) (u : CompilationUnit) (method : Method) (i : Nat) :
    r.invoke u method i =
      ⟨(Call.operation u method i r).found, .ofCalls [.operation u method i r]⟩ := by
  have heffects : (r.handler.run ⟨u, method, i⟩).effects
      (.handlerFailed r.rule.id (Ref.ofPosition i).text) = .ofCalls [.operation u method i r] :=
    Response.effects_eq _ _ _ rfl rfl rfl fun _ => rfl
  rw [invoke, Call.found, heffects]
  split <;> rfl

namespace Analyzer

variable (a : Analyzer)

theorem mem_actionCalls {site : BodyStart} {c : Call} (h : c ∈ a.actionCalls site) :
    ∃ rule action, c = .predicate rule action site.method ∨ c = .start rule action site := by
  obtain ⟨rule, -, h⟩ := List.mem_flatMap.1 h
  obtain ⟨action, -, h⟩ := List.mem_flatMap.1 h
  exact ⟨rule, action, BodyAction.mem_calls h⟩

theorem flatMap_found_actionCalls (site : BodyStart) :
    (a.actionCalls site).flatMap Call.found = [] := by
  refine List.flatMap_eq_nil_iff.2 fun c hc => ?_
  obtain ⟨rule, action, rfl | rfl⟩ := a.mem_actionCalls hc <;> rfl

/-- The analysis of a body gives what its calls give. -/
theorem analyzeBody_eq_calls (site : BodyStart) :
    a.analyzeBody site =
      ⟨((a.calls site).flatMap Call.found).map (Finding.adjust a.options),
        .ofCalls (a.calls site)⟩ := by
  have hcall (v : Nat × Registered) : v.2.invoke site.unit site.method v.1 =
      ⟨(Call.operation site.unit site.method v.1 v.2).found,
        .ofCalls [.operation site.unit site.method v.1 v.2]⟩ :=
    v.2.invoke_eq site.unit site.method v.1
  have hitems : (scan site (a.handlers site).items).items = (a.calls site).flatMap Call.found := by
    rw [scan_eq_gather, invocations_handlers, Harvest.items_gather, calls, List.flatMap_append,
      flatMap_found_actionCalls, List.nil_append, List.flatMap_map]
    exact List.flatMap_congr fun v _ => congrArg Harvest.items (hcall v)
  have heffects : (scan site (a.handlers site).items).effects =
      .ofCalls ((a.visits site).map fun (i, r) => .operation site.unit site.method i r) := by
    rw [scan_eq_gather, invocations_handlers, List.map_eq_flatMap]
    exact Harvest.effects_gather (fun v => congrArg Harvest.effects (hcall v)) _
  rw [analyzeBody_eq]
  simp only
  rw [hitems, heffects, effects_handlers, ← Effects.ofCalls_append]
  rfl

/-- The calls for a body, none if its method is unknown. -/
def callsIn (u : CompilationUnit) (b : Body) : List Call :=
  match u.symbols.method? b.method with
  | none => []
  | some method => a.calls ⟨u, b, method⟩

theorem registration_not_mem_callsIn (id : String) (rule : Rule) (u : CompilationUnit) (b : Body) :
    .registration id rule ∉ a.callsIn u b := by
  intro h
  rw [callsIn] at h
  split at h
  · cases h
  · rcases List.mem_append.1 h with h | h
    · obtain ⟨_, _, h | h⟩ := a.mem_actionCalls h <;> cases h
    · obtain ⟨_, -, h⟩ := List.mem_map.1 h
      cases h

/-- A handler that is called for a body was registered for it. -/
theorem of_operation_mem_callsIn {a : Analyzer} {u u' : CompilationUnit} {b : Body}
    {method : Method} {i : Nat} {r : Registered} (h : .operation u' method i r ∈ a.callsIn u b) :
    u' = u ∧ r ∈ a.registered ⟨u, b, method⟩ := by
  rw [callsIn] at h
  split at h
  · cases h
  · rcases List.mem_append.1 h with h | h
    · obtain ⟨_, _, h | h⟩ := a.mem_actionCalls h <;> cases h
    · obtain ⟨v, hv, hcall⟩ := List.mem_map.1 h
      cases hcall
      obtain ⟨j, -, hv⟩ := List.mem_flatMap.1 hv
      obtain ⟨r', hr', rfl⟩ := List.mem_map.1 hv
      exact ⟨rfl, List.mem_of_mem_filter hr'⟩

/-- Where no rule may look at the unit, nothing is called. -/
theorem calls_eq_nil {site : BodyStart} (h : a.rules.any (·.analyzes site.unit) = false) :
    a.calls site = [] := by
  have hrules : a.rules.filter (·.analyzes site.unit) = [] :=
    List.filter_eq_nil_iff.2 fun r hr => by simpa using List.any_eq_false.1 h r hr
  have hregistered : a.registered site = [] := by rw [registered, hrules]; rfl
  have hvisits : a.visits site = [] := by
    rw [visits, hregistered]
    exact List.flatMap_eq_nil_iff.2 fun i _ => rfl
  rw [calls, actionCalls, hrules, hvisits]
  rfl

/-- What a body adds to a run is what its calls give. -/
theorem harvestBody_eq_calls (u : CompilationUnit) (b : Body) :
    a.harvestBody u b =
      ⟨((a.callsIn u b).flatMap Call.found).map (Finding.adjust a.options),
        .ofCalls (a.callsIn u b)⟩ := by
  rw [harvestBody, callsIn]
  cases u.symbols.method? b.method with
  | none => rfl
  | some method =>
      simp only
      split
      -- A body that is left out is one that no rule may look at.
      · next hskip =>
          rw [calls_eq_nil a (by simpa using (Bool.and_eq_true_iff.1 hskip).2)]
          rfl
      · exact a.analyzeBody_eq_calls _

/-- The diagnostics of a body are what its calls found, each with the severity that the options
choose. -/
theorem diagnostics_harvestBody_eq_calls (u : CompilationUnit) (b : Body) :
    (a.harvestBody u b).items.map Finding.diagnostic =
      ((a.callsIn u b).flatMap fun c => c.found.map Finding.diagnostic).map
        (Diagnostic.adjust a.options) := by
  rw [harvestBody_eq_calls, ← List.map_flatMap, List.map_map, List.map_map]
  rfl

end Analyzer

/-! ## A small analysis

A body that returns a literal, and a rule with two handlers. The one for the literal reports
it; the one for the return reports it as well, and then fails. -/

namespace Sample

def method : Method := ⟨"M", "T", .ordinary, none⟩

def body : Body := ⟨0, ⟨1⟩⟩

def unit : CompilationUnit where
  file := "a.cs"
  generated := false
  source := none
  symbols := ⟨#[], #[method]⟩
  bodies := [body]
  forest := ⟨#[⟨.literal "1", ⟨7, 8⟩, some 1⟩, ⟨.returns ⟨0⟩, ⟨0, 9⟩, none⟩]⟩

def descriptor : Descriptor := ⟨"S1", "Literal", "A literal.", .usage, .info, true, none, []⟩

def diagnostic : Diagnostic := ⟨"a.cs", 7, 1, "A literal.", .info, "S1", .usage, []⟩

def returnHandler : Handler :=
  ⟨.returns, fun _ => ⟨[diagnostic], some (.text "no"), false, []⟩⟩

def literalHandler : Handler := ⟨.literal, fun _ => .ofOutput [diagnostic]⟩

def action : BodyAction :=
  ⟨fun _ => .ofOutput true, fun _ => .ofOutput [returnHandler, literalHandler]⟩

def registration : Registration := ⟨[action], true, .analyzeAndReport⟩

def rule : Rule := ⟨[descriptor], .ok registration⟩

def analyzer : Analyzer := .ofRules .default [rule]

def activeRule : ActiveRule := ⟨0, "S1", registration⟩

theorem descendants_unit : unit.forest.descendants ⟨1⟩ = [1, 0] := by
  have hroot : (Ref.mk 1).position? = some 1 := rfl
  have hfollowed : unit.forest.followed 1 = [0] := rfl
  have hleaf : unit.forest.followed 0 = [] := rfl
  rw [Forest.descendants_eq hroot (by decide), Forest.preorder_eq, hfollowed,
    List.flatMap_singleton, Forest.preorder_eq, hleaf]
  rfl

theorem visits_eq (a : Analyzer) :
    a.visits ⟨unit, body, method⟩ = [1, 0].flatMap fun i =>
      ((a.registered ⟨unit, body, method⟩).filter fun r =>
        unit.forest.kind? i = some r.handler.kind).map (i, ·) := by
  rw [Analyzer.visits, body, descendants_unit]

theorem callsIn_eq (a : Analyzer) :
    a.callsIn unit body = a.actionCalls ⟨unit, body, method⟩ ++
      (a.visits ⟨unit, body, method⟩).map fun (i, r) => .operation unit method i r := by
  have hmethod : unit.symbols.method? body.method = some method := rfl
  rw [Analyzer.callsIn, hmethod]
  rfl

theorem visits_unit :
    analyzer.visits ⟨unit, body, method⟩ =
      [(1, ⟨activeRule, returnHandler⟩), (0, ⟨activeRule, literalHandler⟩)] := by
  rw [visits_eq]
  rfl

theorem callsIn_unit :
    analyzer.callsIn unit body =
      [.predicate activeRule action method, .start activeRule action ⟨unit, body, method⟩,
        .operation unit method 1 ⟨activeRule, returnHandler⟩,
        .operation unit method 0 ⟨activeRule, literalHandler⟩] := by
  rw [callsIn_eq, visits_unit]
  rfl

theorem stopping_run {a : Analyzer} {units : List CompilationUnit} (hunits : ∀ u ∈ units, u = unit)
    (h : (a.harvestBody unit body).effects.cancels = false) :
    (a.run false units).stopping = false := by
  refine a.stopping_run_eq_false_iff.2 fun p hp => ?_
  obtain ⟨u, b⟩ := p
  obtain ⟨hu, hb⟩ := mem_bodiesOf.1 hp
  obtain rfl := hunits u hu
  obtain rfl := List.mem_singleton.1 hb
  exact h

theorem sorted_run {a : Analyzer} (h : (a.harvestBody unit body).effects.cancels = false) :
    (a.run false [unit]).sink.sorted = (a.harvestBody unit body).items := by
  have hcancels := a.stopping_run_eq_false_iff.1 (stopping_run (fun _ => List.mem_singleton.1) h)
  have hbodies : bodiesOf [unit] = [(unit, body)] := rfl
  rw [Analyzer.run, (a.runOver_eq (.refl _) hcancels).1, hbodies, List.flatMap_singleton]

theorem harvestBody_unit :
    analyzer.harvestBody unit body =
      ⟨[⟨0, diagnostic⟩], 1, false,
        [.handlerFailed "S1" (Ref.ofPosition 1).text (Fault.text "no").message]⟩ := by
  rw [Analyzer.harvestBody_eq_calls, callsIn_unit]
  rfl

end Sample

end OpLint
