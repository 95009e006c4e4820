import OpLint.Operation.Basic
import OpLint.Span
import OpLint.Violation

/-!
# Forests of operations

A forest holds the operations of one unit in the order in which they were made,
children before parents. Each operation names its children by reference and keeps
the place of its parent.

A forest grows by `add`, which takes any references. It links the children that
already exist and have no parent yet, so the first parent to claim a child keeps
it and a reference to a later operation links nothing. Such a forest need not
consist of trees; `check` says whether every reference made a link. `ofOperations`
takes all operations at once and allows each child to be named once. A node that
names one of its children twice passes `check`, since its child is linked to it, and
not `ofOperations`.
-/

namespace OpLint

structure Node where
  operation : Operation Ref
  span : Span
  parent : Option Nat
  deriving DecidableEq, Repr, Inhabited

structure Forest where
  nodes : Array Node
  deriving DecidableEq, Repr, Inhabited

namespace Forest

def empty : Forest := ⟨#[]⟩

def size (f : Forest) : Nat :=
  f.nodes.size

/-- The node at a place. -/
def node? (f : Forest) (i : Nat) : Option Node :=
  f.nodes[i]?

/-- The place of a reference, if there is a node. -/
def find? (f : Forest) (r : Ref) : Option Nat :=
  r.position?.filter (· < f.size)

def get? (f : Forest) (r : Ref) : Option Node :=
  r.position? >>= f.node?

/-- The parent that the node at a place is linked to. -/
def parent? (f : Forest) (i : Nat) : Option Nat :=
  f.node? i >>= Node.parent

/-- The children that the node at a place names. -/
def children (f : Forest) (i : Nat) : List Nat :=
  (f.node? i).elim [] (·.operation.children)

/-! ## Growing -/

/-- Links `child`, if it is there and has no parent yet. -/
def claim (parent : Nat) (f : Forest) (child : Nat) : Forest :=
  ⟨f.nodes.modify child fun node => { node with parent := node.parent <|> some parent }⟩

/-- Adds a node without linking anything. -/
def push (f : Forest) (operation : Operation Ref) (span : Span) : Forest :=
  ⟨f.nodes.push ⟨operation, span, none⟩⟩

/-- Adds a node and links those of its children that are there and still free. -/
def add (f : Forest) (operation : Operation Ref) (span : Span) : Forest :=
  (operation.children.foldl (claim f.size) f).push operation span

/-! ## Checking -/

/-- A child must be there and come before its parent. -/
def checkChild (f : Forest) (parent child : Nat) : Except Violation Unit :=
  if f.size ≤ child then throw (.outOfRange child f.size)
  else if parent ≤ child then throw (.childNotBeforeParent parent child)
  else return ()

/-- The child must also be linked to `parent`. If it is linked to nobody, the absent
reference stands for its parent in the message. -/
def checkLink (f : Forest) (parent child : Nat) : Except Violation Unit := do
  f.checkChild parent child
  if f.parent? child ≠ some parent then
    throw (.multipleParents child ((f.parent? child).getD Ref.absent.word.toNat) parent)

/-- Whether every child that a node names is linked to that node. The first failure
counts, nodes and children taken in order. -/
def check (f : Forest) : Except Violation Unit :=
  (List.range f.size).forM fun parent => (f.children parent).forM (f.checkLink parent)

/-! ## All operations at once -/

/-- Links a child that must be free. -/
def claimFree (parent : Nat) (f : Forest) (child : Nat) : Except Violation Forest := do
  f.checkChild parent child
  match f.parent? child with
  | some first => throw (.multipleParents child first parent)
  | none => return f.claim parent child

/-- The operations without any links. -/
def unlinked (operations : List (Operation Ref × Span)) : Forest :=
  operations.foldl (fun f (operation, span) => f.push operation span) empty

/-- The forest of the given operations, in which every child is named once. -/
def ofOperations (operations : List (Operation Ref × Span)) : Except Violation Forest :=
  operations.zipIdx.foldlM
    (fun f ((operation, _), parent) => operation.children.foldlM (claimFree parent) f)
    (unlinked operations)

/-- The operations and spans of a forest, without the links. -/
def operations (f : Forest) : List (Operation Ref × Span) :=
  f.nodes.toList.map fun node => (node.operation, node.span)

end Forest

end OpLint
