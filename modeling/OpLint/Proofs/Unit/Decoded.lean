import OpLint.Proofs.Json.Refinement
import OpLint.Proofs.Unit.Parts

/-!
# Reading a unit in two steps

Reading a unit links its operations while the text is still being read, and checks the
whole at the end. The same can be said in two steps: decode the parts, which knows nothing
of links, and load them. Where the parts can be decoded the two ways agree to the last
message; where they cannot, no unit is read either.
-/

namespace OpLint

open Json (Error Reader Record Fields Field Values Refines)

/-- The answer of loading as a reader gives it. -/
def UnitParts.answer (p : UnitParts) : Except Error CompilationUnit :=
  p.load.mapError fun violation => .refused violation.message

namespace UnitParts

/-- The parts of a unit as they are stored. -/
def record : Record UnitParts where
  name := "UnitRepr"
  strict := false
  types := [String, Bool, Option String, List Property, List Method, List Body,
    Option (List (Operation Ref × Span))]
  fields := .cons (.required "file" Reader.text) <|
    .cons (.withDefault "generated" Reader.flag false) <|
    .cons (.withDefault "source" (Reader.optional Reader.text) none) <|
    .cons Symbols.propertiesField <|
    .cons Symbols.methodsField <|
    .cons (.withDefault "bodies" (Reader.list Body.record.read) []) <|
    .cons (.withDefault "operations"
      (Reader.map some (Reader.list Forest.nodeRecord.read)) none) .nil
  make := fun (file, generated, source, properties, methods, bodies, operations?, ()) =>
    ⟨file, generated, source, properties, methods, bodies, operations?.getD []⟩

/-- The parts that a text stores. -/
def ofText (text : String) : Except Error UnitParts :=
  Reader.run record.read text

/-- Links the operations of a unit, if it has any. -/
def forest? (operations? : Option (List (Operation Ref × Span))) :
    Except Error (Option Forest) :=
  operations?.mapM fun operations =>
    (Forest.ofOperations operations).mapError fun violation => .refused violation.message

theorem read_forest_eq (depth : Nat) (d : Json.Draft) :
    Reader.map some Forest.read depth d =
      Reader.map some (Reader.list Forest.nodeRecord.read) depth d >>= forest? := by
  rw [Reader.map, Reader.map, Forest.read, Reader.refine]
  cases Reader.list Forest.nodeRecord.read depth d with
  | error e => rfl
  | ok operations => rfl

/-- A unit is stored as its parts are, but that its operations are linked when they are
read. -/
def oneRefined : Fields.OneRefined forest? record.fields CompilationUnit.record.fields :=
  .there _ <| .there _ <| .there _ <| .there _ <| .there _ <| .there _ <|
    .here (by rfl) read_forest_eq (by rfl) .nil

end UnitParts

namespace CompilationUnit

/-- What reading does with a unit that has its links. -/
def checked (u : CompilationUnit) : Except Error CompilationUnit :=
  match u.check with
  | .ok () => .ok u
  | .error violation => .error (.refused violation.message)

theorem checked_eq (u : CompilationUnit) :
    u.checked =
      (u.check >>= fun _ => .ok u).mapError fun violation => .refused violation.message := by
  rw [checked]
  cases u.check <;> rfl

/-- Checking the unit that is made of the converted values is loading its parts. -/
theorem checked_values (as : Values UnitParts.record.types) :
    ((UnitParts.oneRefined.values as).map record.make >>= fun (u, _) => u.checked) =
      (UnitParts.record.make as).answer := by
  obtain ⟨file, generated, source, properties, methods, bodies, operations?, ⟨⟩⟩ := as
  simp only [UnitParts.oneRefined, Fields.OneRefined.values]
  rw [UnitParts.answer, UnitParts.load]
  cases operations? with
  | none => exact checked_eq _
  | some operations =>
      rw [UnitParts.forest?]
      show ((((((((((Forest.ofOperations operations).mapError _).map some).map _).map _).map _).map
        _).map _).map _).map _).map _ >>= _ = (Forest.ofOperations operations >>= _).mapError _
      cases Forest.ofOperations operations with
      | error violation => rfl
      | ok forest => exact checked_eq _

/-- Reading a unit is decoding its parts and loading them. -/
theorem refines_read (depth : Nat) (d : Json.Draft) :
    Refines UnitParts.answer (UnitParts.record.read depth d) (CompilationUnit.read depth d) := by
  have hread := Record.refines_read UnitParts.oneRefined rfl rfl depth d
  rw [UnitParts.record.read_eq_map_plain, CompilationUnit.read, Reader.refine,
    record.read_eq_map_plain]
  cases hplain : UnitParts.record.plain.read depth d with
  | error e =>
      rw [hplain] at hread
      obtain ⟨e', he'⟩ := hread
      rw [he']
      exact ⟨e', rfl⟩
  | ok as =>
      rw [hplain] at hread
      have hrefined : record.plain.read depth d = UnitParts.oneRefined.values as := hread
      rw [hrefined]
      exact checked_values as

theorem refines_ofText (text : String) :
    Refines UnitParts.answer (UnitParts.ofText text) (CompilationUnit.ofText text) :=
  Json.refines_run refines_read text

end CompilationUnit

end OpLint
