import OpLint.Forest.Basic
import OpLint.Symbol.Basic

/-!
# Compilation units

A unit is what one source file gives: its symbols, its operations, and for each
method body the operation at its root. `check` says whether the parts fit together
and names the first thing that does not: the forest comes first, then the methods,
then the properties that operations refer to, then the bodies.
-/

namespace OpLint

structure Body where
  method : UInt32
  root : Ref
  deriving DecidableEq, Repr, Inhabited

structure CompilationUnit where
  file : String
  /-- Whether a code generator made the file. -/
  generated : Bool
  /-- The text of the file, used for positions only. -/
  source : Option String
  symbols : Symbols
  bodies : List Body
  forest : Forest
  deriving DecidableEq, Repr, Inhabited

namespace CompilationUnit

/-- The unit of a file with nothing in it. -/
def ofFile (file : String) : CompilationUnit :=
  ⟨file, false, none, .empty, [], .empty⟩

/-- The body at a place. -/
def body? (u : CompilationUnit) (i : Nat) : Option Body :=
  u.bodies[i]?

/-- Adds an operation to the forest; its place is the number of operations before. -/
def addOperation (u : CompilationUnit) (operation : Operation Ref) (span : Span) :
    CompilationUnit :=
  { u with forest := u.forest.add operation span }

/-- Adds a body; its place is the number of bodies before. -/
def addBody (u : CompilationUnit) (b : Body) : CompilationUnit :=
  { u with bodies := u.bodies ++ [b] }

/-! ## Checking -/

/-- Whether a property id names no property of the unit. -/
def isUnknownProperty (u : CompilationUnit) (property : UInt32) : Bool :=
  u.symbols.properties.size ≤ property.toNat

def checkMethod (u : CompilationUnit) (m : Method) : Except Violation Unit :=
  match m.property with
  | some property =>
    if u.isUnknownProperty property then throw (.unknownProperty property.toNat) else return ()
  | none => if m.isSetter then throw (.setterWithoutProperty m.name) else return ()

def checkOperation (u : CompilationUnit) (operation : Operation Ref) : Except Violation Unit :=
  match operation with
  | .propertyReference property _ _ =>
    if u.isUnknownProperty property then throw (.unknownProperty property.toNat) else return ()
  | _ => return ()

/-- Checks a body; `seen` holds the roots of the bodies before it. -/
def checkBody (u : CompilationUnit) (seen : List Ref) (b : Body) : Except Violation Unit :=
  match u.symbols.method? b.method, u.forest.get? b.root with
  | none, _ => throw (.unknownMethod b.method.toNat)
  | some _, none => throw (.outOfRange b.root.word.toNat u.forest.size)
  | some method, some root =>
    if root.parent.isSome then throw (.bodyRootHasParent method.name b.root.word.toNat)
    else if b.root ∈ seen then throw (.duplicateBodyRoot b.root.word.toNat)
    else return ()

def checkBodies (u : CompilationUnit) (seen : List Ref) : List Body → Except Violation Unit
  | [] => return ()
  | b :: bodies => do
    u.checkBody seen b
    u.checkBodies (b.root :: seen) bodies

def check (u : CompilationUnit) : Except Violation Unit := do
  u.forest.check
  u.symbols.methods.toList.forM u.checkMethod
  u.forest.nodes.toList.forM fun node => u.checkOperation node.operation
  u.checkBodies [] u.bodies

end CompilationUnit

end OpLint
