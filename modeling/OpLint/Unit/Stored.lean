import OpLint.Event
import OpLint.Forest.Stored
import OpLint.Unit.Basic

/-!
# Compilation units as they are stored

A stored unit keeps its symbols beside its other parts. Only its file must be
there. Reading a unit checks it, so whatever was read fits together.
-/

namespace OpLint

open Json (Reader Record)

namespace Body

def toJson (b : Body) : Json.Value :=
  .object [("method", .number b.method.toNat), ("root", b.root.toJson)]

def record : Record Body :=
  .ofFields "MethodBody" (.required "method" Reader.word) (.required "root" Ref.read) Body.mk

end Body

namespace CompilationUnit

def toJson (u : CompilationUnit) : Json.Value :=
  .object <|
    [("file", .string u.file), ("generated", .bool u.generated)] ++
    (u.source.toList.map fun source => ("source", .string source)) ++
    u.symbols.members ++
    [("bodies", .array (u.bodies.map Body.toJson)), ("operations", u.forest.toJson)]

/-- The stored text of a unit. -/
def text (u : CompilationUnit) : String :=
  u.toJson.indented

/-- A unit before it is checked, and its forest, if the text has one. -/
def record : Record (CompilationUnit × Option Forest) where
  name := "UnitRepr"
  strict := false
  types := [String, Bool, Option String, List Property, List Method, List Body, Option Forest]
  fields := .cons (.required "file" Reader.text) <|
    .cons (.withDefault "generated" Reader.flag false) <|
    .cons (.withDefault "source" (Reader.optional Reader.text) none) <|
    .cons Symbols.propertiesField <|
    .cons Symbols.methodsField <|
    .cons (.withDefault "bodies" (Reader.list Body.record.read) []) <|
    .cons (.withDefault "operations" (Reader.map some Forest.read) none) .nil
  make := fun (file, generated, source, properties, methods, bodies, forest?, ()) =>
    (⟨file, generated, source, .ofLists properties methods, bodies, forest?.getD .empty⟩, forest?)

/-- Reads a unit and checks it. -/
def read : Reader CompilationUnit :=
  Reader.refine record.read fun (u, _) =>
    match u.check with
    | .ok () => .ok u
    | .error violation => .error (.refused violation.message)

/-- The unit that a text stores. -/
def ofText (text : String) : Except Json.Error CompilationUnit :=
  Reader.run read text

/-- What reading a text logs: its forest, if it has one. The forest is sound by
itself before the unit as a whole is checked, so it counts even if that fails. -/
def eventsOfText (text : String) : List Event :=
  match record.read Json.depthLimit (Json.Draft.ofText text).1 with
  | .ok (_, some forest) => [.forestRead forest.size]
  | _ => []

end CompilationUnit

end OpLint
