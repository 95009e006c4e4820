import OpLint.Json.Record
import OpLint.Json.Value
import OpLint.Operation.Basic

/-!
# Operations as they are stored

A stored operation is an object with its kind under `kind` and what the kind calls
for beside it, or an array with the kind first. The kind need not come first in the
object, so the other members are kept until all of them are read. Absent children
that may be absent are left out.
-/

namespace OpLint

namespace Ref

def toJson (r : Ref) : Json.Value :=
  .number r.word.toNat

def read : Json.Reader Ref :=
  Json.Reader.word.map Ref.mk

end Ref

namespace Operation

/-! ## Writing -/

/-- A child that is left out when it is absent. -/
def optionalMember (name : String) (r : Ref) : List (String × Json.Value) :=
  if r.isAbsent then [] else [(name, r.toJson)]

def refList (refs : List Ref) : Json.Value :=
  .array (refs.map Ref.toJson)

def operatorText (operator : BinaryOperator) : Json.Value :=
  .string (Vocabulary.word operator)

/-- What stands beside the kind. -/
def members : Operation Ref → List (String × Json.Value)
  | block operations => [("operations", refList operations)]
  | expressionStatement operation => [("operation", operation.toJson)]
  | variableDeclaration name initial =>
    ("name", .string name) :: optionalMember "initializer" initial
  | simpleAssignment target value => [("target", target.toJson), ("value", value.toJson)]
  | compoundAssignment operator target value =>
    [("operator", operatorText operator), ("target", target.toJson), ("value", value.toJson)]
  | binary operator left right =>
    [("operator", operatorText operator), ("left", left.toJson), ("right", right.toJson)]
  | conditional condition whenTrue whenFalse =>
    ("condition", condition.toJson) :: ("whenTrue", whenTrue.toJson) ::
      optionalMember "whenFalse" whenFalse
  | loop condition body => optionalMember "condition" condition ++ [("body", body.toJson)]
  | returns value => optionalMember "value" value
  | throws value => optionalMember "value" value
  | invocation method receiver arguments =>
    ("targetMethod", .string method) :: optionalMember "instance" receiver ++
      [("arguments", refList arguments)]
  | delegateCreation target => [("target", target.toJson)]
  | anonymousFunction body => [("body", body.toJson)]
  | localFunction name body => [("name", .string name), ("body", body.toJson)]
  | propertyReference property receiver arguments =>
    ("property", .number property.toNat) :: optionalMember "instance" receiver ++
      if arguments.isEmpty then [] else [("arguments", refList arguments)]
  | fieldReference field receiver =>
    ("field", .string field) :: optionalMember "instance" receiver
  | localReference name => [("name", .string name)]
  | parameterReference name => [("name", .string name)]
  | instanceReference kind isImplicit =>
    [("referenceKind", .string (Vocabulary.word kind)), ("implicit", .bool isImplicit)]
  | literal value => [("value", .string value)]
  | invalid children => [("children", refList children)]

def toJson (op : Operation Ref) : Json.Value :=
  .object (("kind", .string (Vocabulary.word op.kind)) :: op.members)

/-! ## Reading -/

open Json (Reader Record)

def requiredRef (name : String) : Json.Field Ref := .required name Ref.read

def optionalRef (name : String) : Json.Field Ref := .withDefault name Ref.read .absent

def optionalRefs (name : String) : Json.Field (List Ref) :=
  .withDefault name (Reader.list Ref.read) []

def requiredText (name : String) : Json.Field String := .required name Reader.text

def requiredOperator : Json.Field BinaryOperator := .required "operator" Reader.keptVariant

/-- What each kind calls for. -/
def payload : OperationKind → Record (Operation Ref)
  | .block => .ofField "BlockData" (optionalRefs "operations") block
  | .expressionStatement =>
    .ofField "ExpressionStatementData" (requiredRef "operation") expressionStatement
  | .variableDeclaration =>
    .ofFields "VariableDeclarationData" (requiredText "name") (optionalRef "initializer")
      variableDeclaration
  | .simpleAssignment =>
    .ofFields "AssignmentData" (requiredRef "target") (requiredRef "value") simpleAssignment
  | .compoundAssignment =>
    .ofFields₃ "CompoundAssignmentData" requiredOperator (requiredRef "target")
      (requiredRef "value") compoundAssignment
  | .binary =>
    .ofFields₃ "BinaryData" requiredOperator (requiredRef "left") (requiredRef "right") binary
  | .conditional =>
    .ofFields₃ "ConditionalData" (requiredRef "condition") (requiredRef "whenTrue")
      (optionalRef "whenFalse") conditional
  | .loop => .ofFields "LoopData" (optionalRef "condition") (requiredRef "body") loop
  | .returns => .ofField "ReturnData" (optionalRef "value") returns
  | .throws => .ofField "ReturnData" (optionalRef "value") throws
  | .invocation =>
    .ofFields₃ "InvocationData" (requiredText "targetMethod") (optionalRef "instance")
      (optionalRefs "arguments") invocation
  | .delegateCreation => .ofField "DelegateCreationData" (requiredRef "target") delegateCreation
  | .anonymousFunction => .ofField "AnonymousFunctionData" (requiredRef "body") anonymousFunction
  | .localFunction =>
    .ofFields "LocalFunctionData" (requiredText "name") (requiredRef "body") localFunction
  | .propertyReference =>
    .ofFields₃ "PropertyReferenceData" (.required "property" Reader.word) (optionalRef "instance")
      (optionalRefs "arguments") propertyReference
  | .fieldReference =>
    .ofFields "FieldReferenceData" (requiredText "field") (optionalRef "instance") fieldReference
  | .localReference => .ofField "ReferenceData" (requiredText "name") localReference
  | .parameterReference => .ofField "ReferenceData" (requiredText "name") parameterReference
  | .instanceReference =>
    .ofFields "InstanceReferenceData" (.required "referenceKind" Reader.keptVariant)
      (.withDefault "implicit" Reader.flag false) instanceReference
  | .literal => .ofField "LiteralData" (requiredText "value") literal
  | .invalid => .ofField "InvalidData" (optionalRefs "children") invalid

/-- The kind that the members of an object give, and the other members. -/
def splitKind (depth : Nat) : List (String × Json.Draft) →
    Except Json.Error (Option OperationKind × List (String × Json.Draft)) :=
  List.foldlM
    (fun (kind?, kept) (key, d) =>
      if key = "kind" then
        if kind?.isSome then throw (.duplicateField key)
        else do
          let kind ← Reader.name depth d
          return (some kind, kept)
      else if d.isKeepable depth then return (kind?, kept ++ [(key, d)])
      else throw .malformed)
    (none, [])

def read : Reader (Operation Ref)
  | depth, .object members ending => do
    let inner ← Reader.enter depth
    let (members, ending) := Json.Draft.legible members ending
    let (kind?, kept) ← splitKind inner members
    Reader.close ending
    match kind? with
    | some kind => (payload kind).ofKeptMembers Json.depthLimit kept
    | none => throw (.missingField "kind")
  | depth, .array [] ending => do
    let _ ← Reader.enter depth
    Reader.close ending
    throw (.missingField "kind")
  | depth, .array (d :: items) ending => do
    let inner ← Reader.enter depth
    let kind ← Reader.name inner d
    if Json.Draft.areKeepable inner items then
      Reader.close ending
      (payload kind).ofKeptItems Json.depthLimit items
    else throw .malformed
  | _, d => .error (Reader.mismatch d "internally tagged enum OperationData")

end Operation

end OpLint
