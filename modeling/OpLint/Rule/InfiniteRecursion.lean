import OpLint.Forest.Walk
import OpLint.Rule.Basic

/-!
# The rule against infinite recursion

A setter that assigns its own property on its own instance calls itself. If the
assignment runs whenever the setter does, the recursion is certain. Below a
condition, or within a function that the setter makes, it is only possible, and
the message is softer.
-/

namespace OpLint.InfiniteRecursion

def ruleId : String := "CA2011"

/-- The descriptor with the given message. -/
def descriptor (template : String) : Descriptor where
  id := ruleId
  title := "Avoid infinite recursion"
  template := template
  category := .reliability
  severity := .warning
  enabled := true
  helpLink :=
    some "https://learn.microsoft.com/dotnet/fundamentals/code-analysis/quality-rules/ca2011"
  tags := ["Telemetry"]

def definite : Descriptor :=
  descriptor <| "Do not assign the property '\x7b0\x7d' within its setter. " ++
    "This call will result in an infinite recursion."

def possible : Descriptor :=
  descriptor <| "Do not assign the property '\x7b0\x7d' within its setter. " ++
    "This call might result in an infinite recursion."

/-- An assignment of a setter's own property on its own instance. -/
structure SelfAssignment where
  assignment : Nat
  property : String
  /-- Where the property is declared. -/
  declaration : Span
  span : Span
  deriving DecidableEq, Repr

/-- The property that a reference to it on the running instance refers to. -/
def ownInstanceProperty? (u : CompilationUnit) (target : Ref) : Option UInt32 :=
  match (u.forest.get? target).map Node.operation with
  | some (.propertyReference property receiver _) =>
    match (u.forest.get? receiver).map Node.operation with
    | some (.instanceReference .containingTypeInstance _) => some property
    | _ => none
  | _ => none

/-- What the operation at `assignment` assigns, if it is a simple assignment whose
target is the property of `setter` on the running instance. -/
def selfAssignment? (u : CompilationUnit) (setter : Method) (assignment : Nat) :
    Option SelfAssignment :=
  match u.forest.node? assignment with
  | some ⟨.simpleAssignment target _, span, _⟩ => do
    guard setter.isSetter
    let own ← setter.property
    let assigned ← ownInstanceProperty? u target
    guard (assigned = own)
    let property ← u.symbols.property? own
    return ⟨assignment, property.name, property.span, span⟩
  | _ => none

/-- How sure it is that the operation at `i` runs. -/
def certainty (f : Forest) (i : Nat) : Certainty :=
  let kinds := (f.ancestors i).filterMap fun j => (f.node? j).map (·.operation.kind)
  if kinds.any OperationKind.isDeferredOrConditional then .possible else .definite

namespace SelfAssignment

/-- The diagnostic of a self-assignment. It points to the declaration of the
property if that is known. -/
def diagnostic (s : SelfAssignment) (certainty : Certainty) (file : String) : Diagnostic :=
  let descriptor := match certainty with
    | .definite => definite
    | .possible => possible
  let found := descriptor.create file s.span [s.property]
  if s.declaration.isEmpty then found
  else found.withRelated file s.declaration s!"Property '{s.property}' is declared here."

end SelfAssignment

/-- Reports the visited assignment if it is a self-assignment of `setter`. -/
def visitAssignment (setter : Method) (v : Visit) : Response (List Diagnostic) :=
  match selfAssignment? v.unit setter v.operation with
  | none => .ofOutput []
  | some found =>
    let sure := certainty v.unit.forest found.assignment
    { output := [found.diagnostic sure v.unit.file]
      fault := none
      cancels := false
      events := [.selfAssignment found.property sure] }

def setterAction : BodyAction where
  accepts method := .ofOutput method.isSetter
  start site := .ofOutput [⟨.simpleAssignment, visitAssignment site.method⟩]

def rule : Rule where
  descriptors := [definite, possible]
  registration := .ok
    { actions := [setterAction]
      concurrent := true
      generatedCode := .skip }

end OpLint.InfiniteRecursion

namespace OpLint

/-- The rules that come with the library. -/
def Rule.builtIn : List Rule := [InfiniteRecursion.rule]

end OpLint
