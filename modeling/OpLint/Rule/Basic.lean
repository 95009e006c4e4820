import OpLint.Diagnostic.Basic
import OpLint.Event
import OpLint.Unit.Basic

/-!
# Rules

A rule publishes descriptors and registers callbacks. At the start of a body each
of its actions is asked whether it accepts the method; one that does gives handlers
for that body, and a handler is called for every operation of its kind.

A callback is a function from what it may look at to its response. Besides an
output, the response says whether the callback failed, whether it asked for the
analysis to be cancelled, and what it logged. The output of a failed callback is
what it had done before it failed.
-/

namespace OpLint

/-- How a callback failed. -/
inductive Fault
  | text (message : String)
  /-- It gave no reason that could be shown. -/
  | unprintable
  deriving DecidableEq, Repr

def Fault.message : Fault → String
  | text message => message
  | unprintable => "<non-string panic payload>"

structure Response (α : Type) where
  output : α
  fault : Option Fault
  cancels : Bool
  events : List Event

/-- A response that is nothing but its output. -/
def Response.ofOutput {α : Type} (output : α) : Response α :=
  ⟨output, none, false, []⟩

/-- What a rule wants with units that a code generator made. -/
inductive GeneratedCodePolicy
  /-- Their bodies are not visited. -/
  | skip
  /-- Their bodies are visited, and what is found is dropped. -/
  | analyze
  | analyzeAndReport
  deriving DecidableEq, Repr

namespace GeneratedCodePolicy

instance : Inhabited GeneratedCodePolicy := ⟨analyzeAndReport⟩

instance : Vocabulary GeneratedCodePolicy where
  all := [skip, analyze, analyzeAndReport]
  word
    | skip => "skip"
    | analyze => "analyze"
    | analyzeAndReport => "analyzeAndReport"

def analyzes (p : GeneratedCodePolicy) : Bool :=
  p ≠ skip

def reports (p : GeneratedCodePolicy) : Bool :=
  p = analyzeAndReport

end GeneratedCodePolicy

/-- What an action may look at. -/
structure BodyStart where
  unit : CompilationUnit
  body : Body
  method : Method

/-- What a handler may look at. -/
structure Visit where
  unit : CompilationUnit
  method : Method
  operation : Nat

structure Handler where
  kind : OperationKind
  run : Visit → Response (List Diagnostic)

structure BodyAction where
  accepts : Method → Response Bool
  start : BodyStart → Response (List Handler)

structure Registration where
  actions : List BodyAction
  /-- Whether the handlers may run on several bodies at once. -/
  concurrent : Bool
  generatedCode : GeneratedCodePolicy

structure Rule where
  /-- All descriptors that the rule reports with; the id of the first one names the
  rule. -/
  descriptors : List Descriptor
  registration : Except Fault Registration

end OpLint
