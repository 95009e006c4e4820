import OpLint.Forest.Basic
import OpLint.Operation.Stored
import OpLint.Symbol.Stored

/-!
# Forests as they are stored

A forest is stored as the list of its operations and spans. The links are not
stored: reading a forest makes them again, and refuses a list in which a child is
missing, comes too late or has two parents.
-/

namespace OpLint.Forest

open Json (Reader Record)

def nodeJson (operation : Operation Ref) (span : Span) : Json.Value :=
  .object [("span", span.toJson), ("operation", operation.toJson)]

def toJson (f : Forest) : Json.Value :=
  .array (f.operations.map fun (operation, span) => nodeJson operation span)

def nodeRecord : Record (Operation Ref × Span) :=
  .ofFields "RawOperation" Span.field (.required "operation" Operation.read)
    fun span operation => (operation, span)

def read : Reader Forest :=
  Reader.refine (Reader.list nodeRecord.read) fun operations =>
    (ofOperations operations).mapError fun violation => .refused violation.message

end OpLint.Forest
