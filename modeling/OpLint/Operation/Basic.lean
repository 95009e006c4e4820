import OpLint.Operation.Kind

/-!
# Operations

An operation is one node of a resolved body: a statement or an expression, with
what its kind calls for. It is generic in how it names its children. In a stored
forest they are references, in a tree they are the subtrees themselves, and `map`
goes from one to the other.
-/

namespace OpLint

/-! ## References -/

/-- The place of an operation in its forest. The greatest word names none. -/
structure Ref where
  word : UInt32
  deriving DecidableEq, Repr

namespace Ref

def absent : Ref := ⟨4294967295⟩

instance : Inhabited Ref := ⟨absent⟩

def isAbsent (r : Ref) : Bool :=
  r = absent

def position? (r : Ref) : Option Nat :=
  if r.isAbsent then none else some r.word.toNat

/-- The reference to a place. -/
def ofPosition (i : Nat) : Ref :=
  ⟨.ofNat i⟩

/-- The reference to a place that may not be there. -/
def ofPosition? (i : Option Nat) : Ref :=
  i.elim absent ofPosition

def text (r : Ref) : String :=
  if r.isAbsent then "<none>" else s!"#{r.word.toNat}"

end Ref

/-! ## Operations -/

/-- An operation whose children are named by values of `ρ`. Properties are named by
their place among the properties of the unit. -/
inductive Operation (ρ : Type)
  | block (operations : List ρ)
  | expressionStatement (operation : ρ)
  | variableDeclaration (name : String) (initial : ρ)
  | simpleAssignment (target value : ρ)
  | compoundAssignment (operator : BinaryOperator) (target value : ρ)
  | binary (operator : BinaryOperator) (left right : ρ)
  | conditional (condition whenTrue whenFalse : ρ)
  | loop (condition body : ρ)
  | returns (value : ρ)
  | throws (value : ρ)
  | invocation (method : String) (receiver : ρ) (arguments : List ρ)
  | delegateCreation (target : ρ)
  | anonymousFunction (body : ρ)
  | localFunction (name : String) (body : ρ)
  | propertyReference (property : UInt32) (receiver : ρ) (arguments : List ρ)
  | fieldReference (field : String) (receiver : ρ)
  | localReference (name : String)
  | parameterReference (name : String)
  | instanceReference (kind : InstanceReferenceKind) (isImplicit : Bool)
  | literal (value : String)
  | invalid (children : List ρ)
  deriving DecidableEq, Repr, Inhabited

namespace Operation

variable {ρ σ : Type}

def kind : Operation ρ → OperationKind
  | block .. => .block
  | expressionStatement .. => .expressionStatement
  | variableDeclaration .. => .variableDeclaration
  | simpleAssignment .. => .simpleAssignment
  | compoundAssignment .. => .compoundAssignment
  | binary .. => .binary
  | conditional .. => .conditional
  | loop .. => .loop
  | returns .. => .returns
  | throws .. => .throws
  | invocation .. => .invocation
  | delegateCreation .. => .delegateCreation
  | anonymousFunction .. => .anonymousFunction
  | localFunction .. => .localFunction
  | propertyReference .. => .propertyReference
  | fieldReference .. => .fieldReference
  | localReference .. => .localReference
  | parameterReference .. => .parameterReference
  | instanceReference .. => .instanceReference
  | literal .. => .literal
  | invalid .. => .invalid

/-- What an operation names, in the order in which it is evaluated. -/
def refs : Operation ρ → List ρ
  | block operations => operations
  | expressionStatement operation => [operation]
  | variableDeclaration _ initial => [initial]
  | simpleAssignment target value => [target, value]
  | compoundAssignment _ target value => [target, value]
  | binary _ left right => [left, right]
  | conditional condition whenTrue whenFalse => [condition, whenTrue, whenFalse]
  | loop condition body => [condition, body]
  | returns value => [value]
  | throws value => [value]
  | invocation _ receiver arguments => receiver :: arguments
  | delegateCreation target => [target]
  | anonymousFunction body => [body]
  | localFunction _ body => [body]
  | propertyReference _ receiver arguments => receiver :: arguments
  | fieldReference _ receiver => [receiver]
  | localReference _ => []
  | parameterReference _ => []
  | instanceReference _ _ => []
  | literal _ => []
  | invalid children => children

/-- The same operation with its children named otherwise. -/
def map (f : ρ → σ) : Operation ρ → Operation σ
  | block operations => block (operations.map f)
  | expressionStatement operation => expressionStatement (f operation)
  | variableDeclaration name initial => variableDeclaration name (f initial)
  | simpleAssignment target value => simpleAssignment (f target) (f value)
  | compoundAssignment operator target value => compoundAssignment operator (f target) (f value)
  | binary operator left right => binary operator (f left) (f right)
  | conditional condition whenTrue whenFalse =>
    conditional (f condition) (f whenTrue) (f whenFalse)
  | loop condition body => loop (f condition) (f body)
  | returns value => returns (f value)
  | throws value => throws (f value)
  | invocation method receiver arguments => invocation method (f receiver) (arguments.map f)
  | delegateCreation target => delegateCreation (f target)
  | anonymousFunction body => anonymousFunction (f body)
  | localFunction name body => localFunction name (f body)
  | propertyReference property receiver arguments =>
    propertyReference property (f receiver) (arguments.map f)
  | fieldReference field receiver => fieldReference field (f receiver)
  | localReference name => localReference name
  | parameterReference name => parameterReference name
  | instanceReference kind isImplicit => instanceReference kind isImplicit
  | literal value => literal value
  | invalid children => invalid (children.map f)

theorem refs_map (f : ρ → σ) (op : Operation ρ) : (op.map f).refs = op.refs.map f := by
  cases op <;> rfl

theorem kind_map (f : ρ → σ) (op : Operation ρ) : (op.map f).kind = op.kind := by
  cases op <;> rfl

/-- The places of the children, absent ones left out. -/
def children (op : Operation Ref) : List Nat :=
  op.refs.filterMap Ref.position?

end Operation

end OpLint
