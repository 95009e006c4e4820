import OpLint.Span
import OpLint.Vocabulary

/-!
# Symbols of a unit

The properties and methods that a unit declares or refers to. A symbol is named by
its place in its table, so two properties of one name stay apart.
-/

namespace OpLint

structure Property where
  name : String
  containingType : String
  isStatic : Bool
  /-- Where it is declared; empty when that is unknown. -/
  span : Span
  deriving DecidableEq, Repr, Inhabited

inductive MethodKind
  | ordinary
  | constructor
  | staticConstructor
  | destructor
  | propertyGet
  | propertySet
  | eventAdd
  | eventRemove
  | userDefinedOperator
  | conversion
  deriving DecidableEq, Repr, Inhabited

instance : Vocabulary MethodKind where
  all := [.ordinary, .constructor, .staticConstructor, .destructor, .propertyGet, .propertySet,
    .eventAdd, .eventRemove, .userDefinedOperator, .conversion]
  word
    | .ordinary => "ordinary"
    | .constructor => "constructor"
    | .staticConstructor => "staticConstructor"
    | .destructor => "destructor"
    | .propertyGet => "propertyGet"
    | .propertySet => "propertySet"
    | .eventAdd => "eventAdd"
    | .eventRemove => "eventRemove"
    | .userDefinedOperator => "userDefinedOperator"
    | .conversion => "conversion"

structure Method where
  name : String
  containingType : String
  kind : MethodKind
  /-- The property that an accessor belongs to. -/
  property : Option UInt32
  deriving DecidableEq, Repr, Inhabited

def Method.isSetter (m : Method) : Bool :=
  m.kind = .propertySet

structure Symbols where
  properties : Array Property
  methods : Array Method
  deriving DecidableEq, Repr, Inhabited

namespace Symbols

def empty : Symbols := ⟨#[], #[]⟩

def property? (s : Symbols) (id : UInt32) : Option Property :=
  s.properties[id.toNat]?

def method? (s : Symbols) (id : UInt32) : Option Method :=
  s.methods[id.toNat]?

/-- Adds a property; its id is the number of properties before. -/
def addProperty (s : Symbols) (p : Property) : Symbols :=
  { s with properties := s.properties.push p }

/-- Adds a method; its id is the number of methods before. -/
def addMethod (s : Symbols) (m : Method) : Symbols :=
  { s with methods := s.methods.push m }

/-- The accessor of `kind` that belongs to a property. -/
def accessor? (s : Symbols) (kind : MethodKind) (verb : String) (property : UInt32) :
    Option Method :=
  (s.property? property).map fun p => ⟨verb ++ p.name, p.containingType, kind, some property⟩

def setter? (s : Symbols) (property : UInt32) : Option Method :=
  s.accessor? .propertySet "set_" property

def getter? (s : Symbols) (property : UInt32) : Option Method :=
  s.accessor? .propertyGet "get_" property

end Symbols

end OpLint
