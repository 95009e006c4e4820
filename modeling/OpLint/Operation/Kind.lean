import OpLint.Vocabulary

/-!
# Kinds of operations

The closed set of shapes that a resolved operation can have, and the small
vocabularies that some shapes need.
-/

namespace OpLint

inductive OperationKind
  | block
  | expressionStatement
  | variableDeclaration
  | simpleAssignment
  | compoundAssignment
  | binary
  | conditional
  | loop
  | returns
  | throws
  | invocation
  | delegateCreation
  | anonymousFunction
  | localFunction
  | propertyReference
  | fieldReference
  | localReference
  | parameterReference
  | instanceReference
  | literal
  | invalid
  deriving DecidableEq, Repr, Inhabited

namespace OperationKind

instance : Vocabulary OperationKind where
  all := [block, expressionStatement, variableDeclaration, simpleAssignment, compoundAssignment,
    binary, conditional, loop, returns, throws, invocation, delegateCreation, anonymousFunction,
    localFunction, propertyReference, fieldReference, localReference, parameterReference,
    instanceReference, literal, invalid]
  word
    | block => "Block"
    | expressionStatement => "ExpressionStatement"
    | variableDeclaration => "VariableDeclaration"
    | simpleAssignment => "SimpleAssignment"
    | compoundAssignment => "CompoundAssignment"
    | binary => "Binary"
    | conditional => "Conditional"
    | loop => "Loop"
    | returns => "Return"
    | throws => "Throw"
    | invocation => "Invocation"
    | delegateCreation => "DelegateCreation"
    | anonymousFunction => "AnonymousFunction"
    | localFunction => "LocalFunction"
    | propertyReference => "PropertyReference"
    | fieldReference => "FieldReference"
    | localReference => "LocalReference"
    | parameterReference => "ParameterReference"
    | instanceReference => "InstanceReference"
    | literal => "Literal"
    | invalid => "Invalid"

/-- Kinds are ordered as they are declared. -/
def rank (k : OperationKind) : Nat :=
  k.ctorIdx

/-- Whether what lies below such an operation may run not at all, or later than the
operation itself: a branch, or the body of a function within the body. -/
def isDeferredOrConditional : OperationKind → Bool
  | anonymousFunction | localFunction | conditional => true
  | _ => false

end OperationKind

/-- How an operation refers to an object without naming it. -/
inductive InstanceReferenceKind
  /-- The instance whose member is running, written or implied. -/
  | containingTypeInstance
  /-- The receiver of an object or collection initializer. -/
  | implicitReceiver
  /-- The input of a pattern that is being matched. -/
  | patternInput
  deriving DecidableEq, Repr, Inhabited

instance : Vocabulary InstanceReferenceKind where
  all := [.containingTypeInstance, .implicitReceiver, .patternInput]
  word
    | .containingTypeInstance => "containingTypeInstance"
    | .implicitReceiver => "implicitReceiver"
    | .patternInput => "patternInput"

inductive BinaryOperator
  | add
  | subtract
  | multiply
  | divide
  | remainder
  | and
  | or
  | conditionalAnd
  | conditionalOr
  | equals
  | notEquals
  | lessThan
  | lessThanOrEqual
  | greaterThan
  | greaterThanOrEqual
  deriving DecidableEq, Repr, Inhabited

instance : Vocabulary BinaryOperator where
  all := [.add, .subtract, .multiply, .divide, .remainder, .and, .or, .conditionalAnd,
    .conditionalOr, .equals, .notEquals, .lessThan, .lessThanOrEqual, .greaterThan,
    .greaterThanOrEqual]
  word
    | .add => "add"
    | .subtract => "subtract"
    | .multiply => "multiply"
    | .divide => "divide"
    | .remainder => "remainder"
    | .and => "and"
    | .or => "or"
    | .conditionalAnd => "conditionalAnd"
    | .conditionalOr => "conditionalOr"
    | .equals => "equals"
    | .notEquals => "notEquals"
    | .lessThan => "lessThan"
    | .lessThanOrEqual => "lessThanOrEqual"
    | .greaterThan => "greaterThan"
    | .greaterThanOrEqual => "greaterThanOrEqual"

end OpLint
