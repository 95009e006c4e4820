import OpLint.Analysis.Scan
import OpLint.Analysis.Sink

/-!
# A run over units

A run takes the bodies of all units one by one. Cancellation is looked at only
before a body starts, so a body is analyzed as a whole or not at all. What a body
adds to a run does not depend on the bodies before it, but for cancellation.

The work items of different bodies have different keys. As the parts of a key stand for words
of 32 bits, this assumes fewer than 2 ^ 32 units, with fewer than 2 ^ 32 bodies each.
-/

namespace OpLint

/-- A body to be analyzed. -/
structure WorkItem where
  key : BodyKey
  unit : CompilationUnit
  body : Body

/-- The bodies of one unit, which is the one at `place`. -/
def CompilationUnit.workItems (u : CompilationUnit) (place : Nat) : List WorkItem :=
  u.bodies.zipIdx.map fun (body, i) => ⟨⟨place, i⟩, u, body⟩

/-- The bodies of all units, in order. -/
def workItems (units : List CompilationUnit) : List WorkItem :=
  units.zipIdx.flatMap fun (u, place) => u.workItems place

structure Outcome where
  diagnostics : List Diagnostic
  /-- Bodies that were analyzed to their end, with or without handlers. -/
  analyzed : Nat
  /-- Bodies that were left out. -/
  skipped : Nat
  /-- Callbacks that failed. -/
  faults : Nat
  /-- Whether cancellation left out a body. -/
  cancelled : Bool
  deriving DecidableEq, Repr, Inhabited

/-- How far a run has come. -/
structure Run where
  /-- Whether cancellation was asked for, before the run or in it. -/
  stopping : Bool
  sink : Sink Finding
  analyzed : Nat
  skipped : Nat
  faults : Nat
  cancelled : Bool
  events : Array Event

namespace Run

/-- A run before its first body. -/
def start (stopping : Bool) : Run :=
  ⟨stopping, .empty, 0, 0, 0, false, #[]⟩

def log (run : Run) (events : List Event) : Run :=
  { run with events := run.events ++ events }

def skip (run : Run) : Run :=
  { run with skipped := run.skipped + 1 }

/-- Takes in what the analysis of a body gave. -/
def absorb (run : Run) (key : BodyKey) (harvest : Harvest Finding) : Run where
  stopping := run.stopping || harvest.effects.cancels
  sink := run.sink.commit key harvest.items
  analyzed := run.analyzed + 1
  skipped := run.skipped
  faults := run.faults + harvest.effects.faults
  cancelled := run.cancelled
  events := run.events ++ harvest.effects.events

/-- Takes the next body, if the run is not to stop. A body of an unknown method and
one that no rule may look at are left out. -/
def visit (a : Analyzer) (run : Run) (w : WorkItem) : Run :=
  if run.stopping then { run.skip with cancelled := true }
  else match w.unit.symbols.method? w.body.method with
    | none => run.skip
    | some method =>
      let run := run.log [.bodyOpened w.unit.file method.name]
      if w.unit.generated && !a.rules.any (·.analyzes w.unit) then
        (run.log [.generatedSkipped]).skip
      else run.absorb w.key (a.analyzeBody ⟨w.unit, w.body, method⟩)

def outcome (run : Run) (a : Analyzer) : Outcome where
  diagnostics := run.sink.sorted.map Finding.diagnostic
  analyzed := run.analyzed
  skipped := run.skipped
  faults := run.faults + a.registrationFaults
  cancelled := run.cancelled

/-- What is logged at the end. -/
def closingEvents (o : Outcome) : List Event :=
  (if o.cancelled then [.cancelled o.analyzed o.skipped] else []) ++
    [.finished o.diagnostics.length o.faults]

end Run

namespace Analyzer

/-- Takes bodies in the given order. -/
def runOver (a : Analyzer) (stopping : Bool) (work : List WorkItem) : Run :=
  work.foldl (Run.visit a) (.start stopping)

/-- The run over all bodies of the units. It stops before the first body if
`stopping` says so. -/
def run (a : Analyzer) (stopping : Bool) (units : List CompilationUnit) : Run :=
  a.runOver stopping (workItems units)

def analyze (a : Analyzer) (stopping : Bool) (units : List CompilationUnit) : Outcome :=
  (a.run stopping units).outcome a

/-- What is logged by the analysis of the units. -/
def eventsOfRun (a : Analyzer) (mode : ExecutionMode) (units : List CompilationUnit) (run : Run) :
    List Event :=
  let opening := .analysisOpened units.length (workItems units).length a.rules.length
    (a.runsConcurrently mode)
  opening :: run.events.toList ++ Run.closingEvents (run.outcome a)

end Analyzer

end OpLint
