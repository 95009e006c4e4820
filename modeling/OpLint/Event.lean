import OpLint.Json.Value

/-!
# What is worth logging

Everything that the library may want to log is an event with a level, a message
and some fields. Two kinds of event open a scope, the analysis as a whole and each
body within it; the others happen in a scope or outside of any.
-/

namespace OpLint

/-- How sure it is that an assignment runs whenever its body does. -/
inductive Certainty
  /-- Every run of the body reaches it. -/
  | definite
  /-- It stands below a condition or within a function of the body. -/
  | possible
  deriving DecidableEq, Repr, Inhabited

def Certainty.text : Certainty → String
  | definite => "Definite"
  | possible => "Possible"

inductive Level
  | trace
  | debug
  | info
  | warn
  | error
  deriving DecidableEq, Repr, Inhabited

def Level.text : Level → String
  | trace => "TRACE"
  | debug => "DEBUG"
  | info => "INFO"
  | warn => "WARN"
  | error => "ERROR"

inductive Event
  | forestRead (operations : Nat)
  | ruleIgnored
  | ruleDisabled (rule : String)
  | registrationFailed (rule fault : String)
  | ruleRegistered (rule : String) (actions : Nat) (concurrent : Bool)
  | analysisOpened (units bodies rules : Nat) (concurrent : Bool)
  | bodyOpened (file method : String)
  | generatedSkipped
  | predicateFailed (rule fault : String)
  | startFailed (rule fault : String)
  | handlerFailed (rule operation fault : String)
  | selfAssignment (property : String) (certainty : Certainty)
  | cancelled (analyzed skipped : Nat)
  | finished (diagnostics faults : Nat)
  | ambiguousSource (file : String)
  deriving DecidableEq, Repr

namespace Event

/-- The name of the scope that an event opens. -/
def opens? : Event → Option String
  | analysisOpened .. => some "analyze"
  | bodyOpened .. => some "body"
  | _ => none

/-- The scope that an event happens in. -/
def scope? : Event → Option String
  | bodyOpened .. | cancelled .. | finished .. => some "analyze"
  | generatedSkipped | predicateFailed .. | startFailed .. | handlerFailed ..
  | selfAssignment .. => some "body"
  | _ => none

def level : Event → Level
  | forestRead .. | selfAssignment .. => .trace
  | ruleDisabled .. | ruleRegistered .. | bodyOpened .. | generatedSkipped | finished .. => .debug
  | analysisOpened .. | cancelled .. => .info
  | ruleIgnored | ambiguousSource .. => .warn
  | registrationFailed .. | predicateFailed .. | startFailed .. | handlerFailed .. => .error

def message : Event → String
  | forestRead .. => "operation arena validated"
  | ruleIgnored => "rule without descriptors ignored"
  | ruleDisabled .. => "rule disabled"
  | registrationFailed .. => "rule initialization panicked; rule skipped"
  | ruleRegistered .. => "rule initialized"
  | analysisOpened .. => "analyze"
  | bodyOpened .. => "body"
  | generatedSkipped => "generated code skipped"
  | predicateFailed .. => "body-start predicate panicked"
  | startFailed .. =>
    "body-start handler panicked; its registrations for this body are dropped"
  | handlerFailed .. => "operation handler panicked"
  | selfAssignment .. => "self-assignment in setter"
  | cancelled .. => "analysis cancelled"
  | finished .. => "analysis finished"
  | ambiguousSource .. => "units share a file name but not their source; positions omitted"

def fields : Event → List (String × Json.Value)
  | forestRead operations => [("operations", .number operations)]
  | ruleIgnored | generatedSkipped => []
  | ruleDisabled rule => [("rule", .string rule)]
  | registrationFailed rule fault | predicateFailed rule fault | startFailed rule fault =>
    [("rule", .string rule), ("panic", .string fault)]
  | ruleRegistered rule actions concurrent =>
    [("rule", .string rule), ("body_start_actions", .number actions),
      ("concurrent", .bool concurrent)]
  | analysisOpened units bodies rules concurrent =>
    [("units", .number units), ("bodies", .number bodies), ("rules", .number rules),
      ("concurrent", .bool concurrent)]
  | bodyOpened file method => [("file", .string file), ("method", .string method)]
  | handlerFailed rule operation fault =>
    [("rule", .string rule), ("operation", .string operation), ("panic", .string fault)]
  | selfAssignment property certainty =>
    [("property", .string property), ("confidence", .string certainty.text)]
  | cancelled analyzed skipped => [("analyzed", .number analyzed), ("skipped", .number skipped)]
  | finished diagnostics faults =>
    [("diagnostics", .number diagnostics), ("faults", .number faults)]
  | ambiguousSource file => [("file", .string file)]

end Event

end OpLint
