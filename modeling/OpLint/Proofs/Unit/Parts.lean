import OpLint.Proofs.Forest.Builder
import OpLint.Unit.Stored

/-!
# Putting a unit together

The parts of a unit are what a text says about it before anything is linked or
checked. `load` links the operations and checks the whole; it answers with the unit or
with the first violation. Which one that is can be said without links and without
running a check: `firstViolation?` goes through the claims to children, the methods,
the references to properties and the bodies, in this order, and `load_eq` says that
nothing else decides.
-/

namespace OpLint

/-- What a stored unit consists of. -/
structure UnitParts where
  file : String
  generated : Bool
  source : Option String
  properties : List Property
  methods : List Method
  bodies : List Body
  operations : List (Operation Ref × Span)

/-- The parts of a unit, its links left out. -/
def CompilationUnit.parts (u : CompilationUnit) : UnitParts where
  file := u.file
  generated := u.generated
  source := u.source
  properties := u.symbols.properties.toList
  methods := u.symbols.methods.toList
  bodies := u.bodies
  operations := u.forest.operations

namespace UnitParts

variable {p : UnitParts}

/-- The unit of some parts whose operations make up the given forest. -/
def assemble (p : UnitParts) (forest : Forest) : CompilationUnit where
  file := p.file
  generated := p.generated
  source := p.source
  symbols := .ofLists p.properties p.methods
  bodies := p.bodies
  forest := forest

/-- Links the operations and checks the unit. -/
def load (p : UnitParts) : Except Violation CompilationUnit := do
  let forest ← Forest.ofOperations p.operations
  (p.assemble forest).check
  return p.assemble forest

theorem parts_assemble {forest : Forest} (h : forest.operations = p.operations) :
    (p.assemble forest).parts = p := by
  simp [CompilationUnit.parts, assemble, Symbols.ofLists, h]

theorem assemble_parts (u : CompilationUnit) : u.parts.assemble u.forest = u := rfl

theorem load_eq_ok_iff {u : CompilationUnit} :
    p.load = .ok u ↔
      ∃ forest, Forest.ofOperations p.operations = .ok forest ∧ p.assemble forest = u ∧
        u.check = .ok () := by
  rw [load]
  constructor
  · intro h
    obtain ⟨forest, hforest, h⟩ := bind_eq_ok_iff.1 h
    obtain ⟨⟨⟩, hcheck, h⟩ := bind_eq_ok_iff.1 h
    exact ⟨forest, hforest, Except.ok.inj h, Except.ok.inj h ▸ hcheck⟩
  · rintro ⟨forest, hforest, rfl, hcheck⟩
    exact bind_eq_ok_iff.2 ⟨forest, hforest, bind_eq_ok_iff.2 ⟨(), hcheck, rfl⟩⟩

/-- A unit that was loaded has the parts that it was loaded from. -/
theorem parts_eq_of_load {u : CompilationUnit} (h : p.load = .ok u) : u.parts = p := by
  obtain ⟨forest, hforest, rfl, -⟩ := load_eq_ok_iff.1 h
  exact parts_assemble (Forest.operations_ofOperations hforest)

/-! ## The rules of a unit -/

/-- The claims to children that the operations make. -/
def claims (p : UnitParts) : List Claim :=
  Claim.ofOperations p.operations

/-- A property must be among those of the unit. -/
def propertyFault? (p : UnitParts) (property : UInt32) : Option Violation :=
  if property.toNat < p.properties.length then none
  else some (.unknownProperty property.toNat)

/-- The property of a method must be known, and a setter must have one. -/
def methodFault? (p : UnitParts) (m : Method) : Option Violation :=
  match m.property with
  | some property => p.propertyFault? property
  | none => if m.kind = .propertySet then some (.setterWithoutProperty m.name) else none

/-- The property that an operation refers to must be known. -/
def referenceFault? (p : UnitParts) : Operation Ref → Option Violation
  | .propertyReference property _ _ => p.propertyFault? property
  | _ => none

/-- A body needs a method, and a root of its own that is nobody's child. -/
def bodyFault? (p : UnitParts) (before : List Body) (b : Body) : Option Violation :=
  match p.methods[b.method.toNat]?,
    b.root.position?.filter (· < p.operations.length) with
  | none, _ => some (.unknownMethod b.method.toNat)
  | some _, none => some (.outOfRange b.root.word.toNat p.operations.length)
  | some method, some root =>
    if root ∈ p.claims.map Claim.child then
      some (.bodyRootHasParent method.name b.root.word.toNat)
    else if b.root ∈ before.map Body.root then some (.duplicateBodyRoot b.root.word.toNat)
    else none

/-- The first thing that is wrong with the parts of a unit. -/
def firstViolation? (p : UnitParts) : Option Violation :=
  (Claim.firstFault? p.operations.length p.claims).or <|
    (p.methods.findSome? p.methodFault?).or <|
      (p.operations.findSome? (p.referenceFault? ·.1)).or <|
        firstObjection p.bodyFault? [] p.bodies

/-! ## What a check of the unit finds -/

section Check

variable {forest : Forest}

theorem isUnknownProperty_assemble (property : UInt32) :
    (p.assemble forest).isUnknownProperty property =
      decide (p.properties.length ≤ property.toNat) := by
  simp [CompilationUnit.isUnknownProperty, assemble, Symbols.ofLists]

theorem checkProperty_assemble (property : UInt32) :
    (if (p.assemble forest).isUnknownProperty property then
        throw (.unknownProperty property.toNat) else return () : Except Violation Unit) =
      verdict (p.propertyFault? property) () := by
  rw [isUnknownProperty_assemble, propertyFault?]
  by_cases h : property.toNat < p.properties.length
  · rw [if_pos h, if_neg (by simpa using h)]
    rfl
  · rw [if_neg h, if_pos (by simpa using h)]
    rfl

theorem checkMethod_assemble (m : Method) :
    (p.assemble forest).checkMethod m = verdict (p.methodFault? m) () := by
  rw [CompilationUnit.checkMethod, methodFault?]
  cases m.property with
  | some property => exact checkProperty_assemble property
  | none =>
      by_cases h : m.kind = .propertySet
      · simp only [Method.isSetter, h, decide_true, if_true]
        rfl
      · simp only [Method.isSetter, h, decide_false, if_false]
        rfl

theorem checkOperation_assemble (op : Operation Ref) :
    (p.assemble forest).checkOperation op = verdict (p.referenceFault? op) () := by
  cases op with
  | propertyReference property receiver arguments => exact checkProperty_assemble property
  | _ => rfl

/-- Whether a node is linked to a parent, said by the claims. -/
theorem isSome_parent_iff (h : Forest.ofOperations p.operations = .ok forest) {i : Nat}
    {node : Node} (hnode : forest.node? i = some node) :
    node.parent.isSome ↔ i ∈ p.claims.map Claim.child := by
  rw [Forest.ofOperations_eq, verdict_eq_ok_iff] at h
  rw [← h.2, Forest.node?_linkedBy, Option.map_eq_some_iff] at hnode
  obtain ⟨op, -, rfl⟩ := hnode
  rw [← not_iff_not, Bool.not_eq_true, Option.isSome_eq_false_iff, Option.isNone_iff_eq_none,
    Claim.holder?_eq_none_iff]
  simp [claims]

theorem checkBody_assemble (h : Forest.ofOperations p.operations = .ok forest)
    {before : List Body} {seen : List Ref} (hseen : ∀ r, r ∈ seen ↔ r ∈ before.map Body.root)
    (b : Body) :
    (p.assemble forest).checkBody seen b = verdict (p.bodyFault? before b) () := by
  have hsize : forest.size = p.operations.length := by
    rw [← Forest.operations_ofOperations h]
    simp [Forest.operations, Forest.size]
  have hmethod : (p.assemble forest).symbols.method? b.method = p.methods[b.method.toNat]? := by
    simp [assemble, Symbols.ofLists, Symbols.method?]
  have hforest : (p.assemble forest).forest = forest := rfl
  rw [CompilationUnit.checkBody, bodyFault?, hmethod, hforest, Forest.get?, hsize]
  cases p.methods[b.method.toNat]? with
  | none => rfl
  | some method =>
      cases b.root.position? with
      | none => rfl
      | some i =>
          rcases Nat.lt_or_ge i p.operations.length with hi | hi
          · obtain ⟨node, hnode⟩ : ∃ node, forest.node? i = some node :=
              ⟨_, Array.getElem?_eq_getElem (by rw [← hsize] at hi; exact hi)⟩
            have hparent := isSome_parent_iff h hnode
            simp only [Option.bind_eq_bind, Option.bind_some, hnode, Option.filter_some, hi,
              decide_true, if_true]
            by_cases hchild : i ∈ p.claims.map Claim.child
            · rw [if_pos (hparent.2 hchild), if_pos hchild]
              rfl
            · rw [if_neg (fun hn => hchild (hparent.1 hn)), if_neg hchild]
              by_cases hroot : b.root ∈ seen
              · rw [if_pos hroot, if_pos ((hseen _).1 hroot)]
                rfl
              · rw [if_neg hroot, if_neg (fun hn => hroot ((hseen _).2 hn))]
                rfl
          · have hnode : forest.node? i = none :=
              Array.getElem?_eq_none (by rw [← hsize] at hi; exact hi)
            simp only [Option.bind_eq_bind, Option.bind_some, hnode, Option.filter_some,
              Nat.not_lt.2 hi, decide_false]
            rfl

theorem checkBodies_assemble (h : Forest.ofOperations p.operations = .ok forest)
    (before : List Body) (seen : List Ref) (hseen : ∀ r, r ∈ seen ↔ r ∈ before.map Body.root)
    (bodies : List Body) :
    (p.assemble forest).checkBodies seen bodies =
      verdict (firstObjection p.bodyFault? before bodies) () := by
  induction bodies generalizing before seen with
  | nil => rfl
  | cons b bodies ih =>
      rw [CompilationUnit.checkBodies, checkBody_assemble h hseen, ih, firstObjection]
      · exact verdict_bind_verdict _ _ _
      · intro r
        simp [hseen, or_comm]

theorem check_assemble (h : Forest.ofOperations p.operations = .ok forest) :
    (p.assemble forest).check =
      verdict ((p.methods.findSome? p.methodFault?).or <|
        (p.operations.findSome? (p.referenceFault? ·.1)).or <|
          firstObjection p.bodyFault? [] p.bodies) () := by
  have hforest : (p.assemble forest).forest.check = .ok () := Forest.check_of_ofOperations h
  have hmethods : (p.assemble forest).symbols.methods.toList.forM (p.assemble forest).checkMethod =
      verdict (p.methods.findSome? p.methodFault?) () := by
    rw [forM_verdict checkMethod_assemble]
    simp [assemble, Symbols.ofLists]
  have hops : (p.assemble forest).forest.nodes.toList.forM
        (fun node => (p.assemble forest).checkOperation node.operation) =
      verdict (p.operations.findSome? (p.referenceFault? ·.1)) () := by
    rw [forM_verdict fun node : Node => checkOperation_assemble node.operation,
      ← Forest.operations_ofOperations h, Forest.operations, List.findSome?_map]
    rfl
  have hbodies : (p.assemble forest).checkBodies [] (p.assemble forest).bodies =
      verdict (firstObjection p.bodyFault? [] p.bodies) () :=
    checkBodies_assemble h [] [] (by simp) p.bodies
  rw [CompilationUnit.check, hforest, hmethods, hops, hbodies, verdict_bind_verdict]
  exact verdict_bind_verdict _ _ _

end Check

/-- Loading answers with the first violation, or with the unit in which every operation
is linked to who claims it. -/
theorem load_eq (p : UnitParts) :
    p.load =
      verdict p.firstViolation? (p.assemble (Forest.linkedBy p.operations p.claims)) := by
  rw [load, firstViolation?]
  cases hforest : Forest.ofOperations p.operations with
  | error v =>
      rw [Forest.ofOperations_eq, verdict_eq_error_iff] at hforest
      rw [claims, hforest]
      rfl
  | ok forest =>
      have hcheck := check_assemble hforest
      rw [Forest.ofOperations_eq, verdict_eq_ok_iff] at hforest
      obtain ⟨hfault, rfl⟩ := hforest
      rw [claims, hfault, Option.none_or]
      show ((p.assemble _).check >>= fun _ => .ok (p.assemble _)) = _
      rw [hcheck, verdict_bind_ok]

end UnitParts

end OpLint
