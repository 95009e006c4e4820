/-!
# What makes a compilation unit unacceptable

Each constructor is one way in which a forest of operations, a symbol table or the
bodies fail to fit together. Operations, properties and methods are named by their
places.
-/

namespace OpLint

inductive Violation
  | outOfRange (index size : Nat)
  | childNotBeforeParent (parent child : Nat)
  /-- Two claims to one child: who holds it, and who claims it too. -/
  | multipleParents (child first second : Nat)
  | unknownProperty (property : Nat)
  | unknownMethod (method : Nat)
  | bodyRootHasParent (method : String) (root : Nat)
  | duplicateBodyRoot (root : Nat)
  | setterWithoutProperty (method : String)
  deriving DecidableEq, Repr

def Violation.message : Violation → String
  | outOfRange index size =>
    s!"operation index {index} is out of range (arena has {size} operations)"
  | childNotBeforeParent parent child =>
    s!"operation {child} must be created before its parent {parent}"
  | multipleParents child first second =>
    s!"operation {child} is claimed by both {first} and {second}"
  | unknownProperty property => s!"unknown property id {property}"
  | unknownMethod method => s!"unknown method id {method}"
  | bodyRootHasParent method root =>
    s!"body root {root} of method '{method}' is nested inside another operation"
  | duplicateBodyRoot root => s!"operation {root} is the root of more than one body"
  | setterWithoutProperty method => s!"property setter '{method}' has no associated property"

end OpLint
