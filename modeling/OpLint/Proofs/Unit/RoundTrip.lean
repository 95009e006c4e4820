import OpLint.Proofs.Operation.ReadBack
import OpLint.Proofs.Unit.Decoded

/-!
# Saved units load back unchanged

The text of a unit stores its parts and nothing else; in particular it stores no links.
Whatever the unit, its parts are decoded from its text as they were written. What is left
is to load them, and that gives the unit again if it fits together and has the links that
its operations ask for. Every unit that was ever read is of this kind.
-/

namespace OpLint

open Json (Reader Record Value Fields Values)

/-! ## Symbols -/

instance : LawfulVocabulary MethodKind where
  ofWord?_word kind := by cases kind <;> rfl

theorem Span.reads_toJson (s : Span) : Span.record.read.Reads 1 s.toJson s :=
  Record.reads_written Span.record (s.start, s.stop, ())
    (.present (Reader.reads_word s.start) (.present (Reader.reads_word s.stop) .nil)) (by decide)

theorem Property.reads_toJson (p : Property) : Property.record.read.Reads 2 p.toJson p :=
  Record.reads_written Property.record (p.name, p.containingType, p.isStatic, p.span, ())
    (.present ((Reader.reads_text p.name).mono (by decide)) <|
      .present ((Reader.reads_text p.containingType).mono (by decide)) <|
      .present ((Reader.reads_flag p.isStatic).mono (by decide)) <|
      .present p.span.reads_toJson .nil) (by decide)

theorem Method.reads_toJson (m : Method) : Method.record.read.Reads 1 m.toJson m := by
  have hmembers : m.toJson = .object (("name", .string m.name) ::
      ("containingType", .string m.containingType) ::
      ("kind", .string (Vocabulary.word m.kind)) ::
      ((m.property.toList.map fun property => ("associatedProperty", .number property.toNat)) ++
        [])) := by
    rw [toJson, List.append_nil]
    rfl
  rw [hmembers]
  exact Record.reads_written Method.record (m.name, m.containingType, m.kind, m.property, ())
    (.present (Reader.reads_text m.name) <| .present (Reader.reads_text m.containingType) <|
      .present (Reader.reads_variant m.kind) <|
      .option m.property rfl (fun property => (Reader.reads_word property).optional (by simp)) .nil)
    (by decide)

theorem Body.reads_toJson (b : Body) : Body.record.read.Reads 1 b.toJson b :=
  Record.reads_written Body.record (b.method, b.root, ())
    (.present (Reader.reads_word b.method) (.present b.root.reads_toJson .nil)) (by decide)

/-! ## Operations -/

theorem Forest.reads_nodeJson (operation : Operation Ref) (span : Span) :
    Forest.nodeRecord.read.Reads 3 (nodeJson operation span) (operation, span) :=
  Record.reads_written Forest.nodeRecord (span, operation, ())
    (.present (span.reads_toJson.mono (by decide)) (.present operation.reads_toJson .nil))
    (by decide)

theorem Forest.reads_operations (f : Forest) :
    (Reader.list Forest.nodeRecord.read).Reads 4 f.toJson f.operations :=
  Reader.reads_list fun (operation, span) _ => reads_nodeJson operation span

/-! ## Units -/

namespace CompilationUnit

theorem reads_properties (u : CompilationUnit) : (Reader.list Property.record.read).Reads 3
    (.array (u.symbols.properties.toList.map Property.toJson)) u.symbols.properties.toList :=
  Reader.reads_list fun p _ => p.reads_toJson

theorem reads_methods (u : CompilationUnit) : (Reader.list Method.record.read).Reads 2
    (.array (u.symbols.methods.toList.map Method.toJson)) u.symbols.methods.toList :=
  Reader.reads_list fun m _ => m.reads_toJson

theorem reads_bodies (u : CompilationUnit) :
    (Reader.list Body.record.read).Reads 2 (.array (u.bodies.map Body.toJson)) u.bodies :=
  Reader.reads_list fun b _ => b.reads_toJson

theorem reads_toJson (u : CompilationUnit) : UnitParts.record.read.Reads 5 u.toJson u.parts := by
  have hmembers : u.toJson = .object (("file", .string u.file) ::
      ("generated", .bool u.generated) ::
      ((u.source.toList.map fun source => ("source", .string source)) ++
        (u.symbols.members ++
          [("bodies", .array (u.bodies.map Body.toJson)), ("operations", u.forest.toJson)]))) := by
    rw [toJson, List.append_assoc, List.append_assoc]
    rfl
  rw [hmembers]
  exact Record.reads_written UnitParts.record (u.file, u.generated, u.source,
      u.symbols.properties.toList, u.symbols.methods.toList, u.bodies, some u.forest.operations, ())
    (.present ((Reader.reads_text u.file).mono (by decide)) <|
      .present ((Reader.reads_flag u.generated).mono (by decide)) <|
      .option u.source rfl (fun source => ((Reader.reads_text source).mono (by decide)).optional
        (by simp)) <|
      .present (u.reads_properties.mono (by decide)) <|
      .present (u.reads_methods.mono (by decide)) <|
      .present (u.reads_bodies.mono (by decide)) <|
      .present (u.forest.reads_operations.map some) .nil) (by decide)

/-- The parts of a unit are decoded from its text. -/
theorem ofText_text_eq_parts (u : CompilationUnit) : UnitParts.ofText u.text = .ok u.parts := by
  rw [UnitParts.ofText, Reader.run, text, Value.ofText_indented]
  show (UnitParts.record.read Json.depthLimit u.toJson.draft >>= _) = _
  rw [u.reads_toJson Json.depthLimit (by decide)]
  rfl

/-- Any parts can be decoded from some text, whether they can be loaded or not. -/
theorem exists_ofText_eq (p : UnitParts) : ∃ text, UnitParts.ofText text = .ok p := by
  refine ⟨(p.assemble (Forest.linkedBy p.operations [])).text, ?_⟩
  rw [ofText_text_eq_parts, UnitParts.parts_assemble Forest.operations_linkedBy]

theorem ofText_text_eq_answer (u : CompilationUnit) : ofText u.text = u.parts.answer := by
  have h := refines_ofText u.text
  rw [ofText_text_eq_parts] at h
  exact h

/-- Loading the parts of a unit gives the unit again if it fits together and is linked as
its operations ask for, and only then. -/
theorem load_parts_eq_ok_iff (u : CompilationUnit) :
    u.parts.load = .ok u ↔
      u.check = .ok () ∧ Forest.ofOperations u.forest.operations = .ok u.forest := by
  rw [UnitParts.load_eq_ok_iff]
  constructor
  · rintro ⟨forest, hforest, hu, hcheck⟩
    obtain rfl : forest = u.forest := congrArg CompilationUnit.forest hu
    exact ⟨hcheck, hforest⟩
  · rintro ⟨hcheck, hforest⟩
    exact ⟨u.forest, hforest, UnitParts.assemble_parts u, hcheck⟩

theorem answer_eq_ok_iff {p : UnitParts} {u : CompilationUnit} :
    p.answer = .ok u ↔ p.load = .ok u :=
  mapError_eq_ok_iff

/-- A unit that was read has been loaded from its parts. -/
theorem load_parts_of_ofText {text : String} {u : CompilationUnit} (h : ofText text = .ok u) :
    u.parts.load = .ok u := by
  have hread := refines_ofText text
  cases hparts : UnitParts.ofText text with
  | error e =>
      rw [hparts] at hread
      obtain ⟨e', he'⟩ := hread
      rw [he'] at h
      cases h
  | ok p =>
      rw [hparts] at hread
      have hload : p.load = .ok u := answer_eq_ok_iff.1 (hread.symm.trans h)
      rw [UnitParts.parts_eq_of_load hload]
      exact hload

theorem ofText_text_eq_ok_iff_load (u : CompilationUnit) :
    ofText u.text = .ok u ↔ u.parts.load = .ok u := by
  rw [ofText_text_eq_answer, answer_eq_ok_iff]

/-- The text of a unit is read as that unit exactly if the unit fits together and has the
links that its operations ask for. This holds of every unit that was read. -/
theorem ofText_text_eq_ok_iff (u : CompilationUnit) :
    (ofText u.text = .ok u ↔
      u.check = .ok () ∧ Forest.ofOperations u.forest.operations = .ok u.forest) ∧
      ∀ text, ofText text = .ok u → ofText u.text = .ok u := by
  refine ⟨(ofText_text_eq_ok_iff_load u).trans (load_parts_eq_ok_iff u), fun text h => ?_⟩
  exact (ofText_text_eq_ok_iff_load u).2 (load_parts_of_ofText h)

/-- Absent children and a span that ends before it starts come back as they were. -/
theorem ofText_text_absent_children :
    ofText (text <| ((ofFile "a.cs").addOperation (.returns .absent) ⟨5, 3⟩).addOperation
        (.invocation "M" .absent [⟨0⟩, .absent]) .empty) =
      .ok (((ofFile "a.cs").addOperation (.returns .absent) ⟨5, 3⟩).addOperation
        (.invocation "M" .absent [⟨0⟩, .absent]) .empty) :=
  (ofText_text_eq_ok_iff _).1.2 ⟨by decide, by decide⟩

end CompilationUnit

end OpLint
