import OpLint.Analysis.Analyzer
import OpLint.Forest.Walk

/-!
# The analysis of one body

First the actions of the rules are asked, in order, and those that accept the
method give the handlers for this body. Then the operations of the body are walked
once, and each is handed to the handlers of its kind. The handlers are sorted by
kind beforehand, in a dispatch table, so that an operation meets only those that
want it.

A callback that fails has no say: its answer, handlers or findings are dropped.
-/

namespace OpLint

/-- A handler for one body, and the rule that it belongs to. -/
structure Registered where
  rule : ActiveRule
  handler : Handler

/-- A diagnostic, and the place of the rule that found it. -/
structure Finding where
  rule : Nat
  diagnostic : Diagnostic
  deriving DecidableEq, Repr, Inhabited

/-! ## Asking the actions -/

/-- Whether an answer is a yes. A callback that failed gave none. -/
def Response.isYes (r : Response Bool) : Bool :=
  r.fault.isNone && r.output

/-- What an action registers for a body that it wants. -/
def BodyAction.registered (action : BodyAction) (rule : ActiveRule) (site : BodyStart) :
    Harvest Registered :=
  let response := action.start site
  let handlers := if response.fault.isSome then [] else response.output.map (Registered.mk rule)
  ⟨handlers, response.effects (.startFailed rule.id)⟩

/-- Asks an action, and lets it register handlers if it wants the body. -/
def BodyAction.ask (action : BodyAction) (rule : ActiveRule) (site : BodyStart) :
    Harvest Registered :=
  let answer := action.accepts site.method
  let asked : Harvest Registered := ⟨[], answer.effects (.predicateFailed rule.id)⟩
  if answer.isYes then asked.append (action.registered rule site) else asked

/-- The handlers for a body, rule by rule and action by action. -/
def Analyzer.handlers (a : Analyzer) (site : BodyStart) : Harvest Registered :=
  .gather (fun rule => .gather (·.ask rule site) rule.registration.actions)
    (a.rules.filter (·.analyzes site.unit))

/-! ## Dispatch -/

/-- The handlers of each kind, in the order of their registration. -/
structure DispatchTable where
  entries : List (OperationKind × List Registered)

namespace DispatchTable

/-- Puts a handler behind the others of its kind. -/
def insert (r : Registered) :
    List (OperationKind × List Registered) → List (OperationKind × List Registered)
  | [] => [(r.handler.kind, [r])]
  | (kind, rs) :: entries =>
    if kind = r.handler.kind then (kind, rs ++ [r]) :: entries
    else (kind, rs) :: insert r entries

def ofHandlers (rs : List Registered) : DispatchTable :=
  ⟨rs.foldl (fun entries r => insert r entries) []⟩

def handlersOf (t : DispatchTable) (kind : OperationKind) : List Registered :=
  (t.entries.lookup kind).getD []

end DispatchTable

/-! ## Visiting the operations -/

/-- What a scan has found so far. All handlers put what they find into one array. -/
structure Findings where
  found : Array Finding
  effects : Effects

namespace Findings

def empty : Findings := ⟨#[], .none⟩

/-- Calls a handler for an operation. The diagnostics that it reports are put behind those
that are there. If it fails, or if what its rule finds in the unit does not count, all that
stands behind the mark is cut off again. -/
def call (u : CompilationUnit) (method : Method) (s : Findings) (operation : Nat)
    (r : Registered) : Findings :=
  let mark := s.found.size
  let response := r.handler.run ⟨u, method, operation⟩
  let found := s.found ++ response.output.map (Finding.mk r.rule.place)
  { found := if response.fault.isSome || !r.rule.reports u then found.take mark else found
    effects := s.effects.andThen
      (response.effects (.handlerFailed r.rule.id (Ref.ofPosition operation).text)) }

end Findings

/-- The handlers to call for the operations of a body, in order. -/
def invocations (f : Forest) (root : Ref) (rs : List Registered) : List (Nat × Registered) :=
  let table := DispatchTable.ofHandlers rs
  (f.descendants root).flatMap fun i =>
    match f.node? i with
    | none => []
    | some node => (table.handlersOf node.operation.kind).map (i, ·)

/-- Everything that the handlers find in a body. -/
def scan (site : BodyStart) (rs : List Registered) : Harvest Finding :=
  let s := (invocations site.unit.forest site.body.root rs).foldl
    (fun s (i, r) => Findings.call site.unit site.method s i r) .empty
  ⟨s.found.toList, s.effects⟩

/-- Gives a diagnostic the severity that the options choose for its code. -/
def Diagnostic.adjust (o : Options) (d : Diagnostic) : Diagnostic :=
  { d with severity := (o.severityOverride? d.code).getD d.severity }

def Finding.adjust (o : Options) (f : Finding) : Finding :=
  { f with diagnostic := f.diagnostic.adjust o }

/-- Analyzes a body. Without handlers its operations need not be visited. -/
def Analyzer.analyzeBody (a : Analyzer) (site : BodyStart) : Harvest Finding :=
  let handlers := a.handlers site
  if handlers.items.isEmpty then ⟨[], handlers.effects⟩
  else
    let found := scan site handlers.items
    ⟨found.items.map (Finding.adjust a.options), handlers.effects.andThen found.effects⟩

end OpLint
