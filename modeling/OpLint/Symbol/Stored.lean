import OpLint.Json.Record
import OpLint.Json.Value
import OpLint.Symbol.Basic

/-!
# Symbols as they are stored
-/

namespace OpLint

open Json (Reader Record)

namespace Span

def toJson (s : Span) : Json.Value :=
  .object [("start", .number s.start.toNat), ("end", .number s.stop.toNat)]

def record : Record Span :=
  .ofFields "Span" (.required "start" Reader.word) (.required "end" Reader.word) Span.mk

/-- A span that may be left out. -/
def field : Json.Field Span := .withDefault "span" record.read .empty

end Span

namespace Property

def toJson (p : Property) : Json.Value :=
  .object [("name", .string p.name), ("containingType", .string p.containingType),
    ("isStatic", .bool p.isStatic), ("span", p.span.toJson)]

def record : Record Property where
  name := "PropertySymbol"
  strict := false
  types := [String, String, Bool, Span]
  fields := .cons (.required "name" Reader.text) <|
    .cons (.required "containingType" Reader.text) <|
    .cons (.withDefault "isStatic" Reader.flag false) <|
    .cons Span.field .nil
  make := fun (name, containingType, isStatic, span, ()) => ⟨name, containingType, isStatic, span⟩

end Property

namespace Method

def toJson (m : Method) : Json.Value :=
  .object <|
    [("name", .string m.name), ("containingType", .string m.containingType),
      ("kind", .string (Vocabulary.word m.kind))] ++
    m.property.toList.map fun property => ("associatedProperty", .number property.toNat)

def record : Record Method where
  name := "MethodSymbol"
  strict := false
  types := [String, String, MethodKind, Option UInt32]
  fields := .cons (.required "name" Reader.text) <|
    .cons (.required "containingType" Reader.text) <|
    .cons (.required "kind" Reader.variant) <|
    .cons (.withDefault "associatedProperty" (Reader.optional Reader.word) none) .nil
  make := fun (name, containingType, kind, property, ()) => ⟨name, containingType, kind, property⟩

end Method

namespace Symbols

/-- The members under which a unit stores its symbols. -/
def members (s : Symbols) : List (String × Json.Value) :=
  [("properties", .array (s.properties.toList.map Property.toJson)),
    ("methods", .array (s.methods.toList.map Method.toJson))]

def toJson (s : Symbols) : Json.Value :=
  .object s.members

def propertiesField : Json.Field (List Property) :=
  .withDefault "properties" (Reader.list Property.record.read) []

def methodsField : Json.Field (List Method) :=
  .withDefault "methods" (Reader.list Method.record.read) []

def ofLists (properties : List Property) (methods : List Method) : Symbols :=
  ⟨properties.toArray, methods.toArray⟩

def record : Record Symbols :=
  .ofFields "SymbolTable" propertiesField methodsField ofLists

end Symbols

end OpLint
