import OpLint.Proofs.Unit.RoundTrip

/-!
# Which units are accepted

Loading accepts exactly the well-formed parts. `WellFormed` says so part by part and
knows no order; the order shows only when something is wrong, since the answer then
is the first violation.
-/

namespace OpLint.UnitParts

variable {p : UnitParts}

/-- All children that the operations name, as their lists have them. -/
def childLists (p : UnitParts) : List Nat :=
  p.operations.flatMap (·.1.children)

/-- What must hold of the parts of a unit. -/
structure WellFormed (p : UnitParts) : Prop where
  /-- A child is there, comes before its parent, and is named once in all. -/
  children : ∀ i op span, p.operations[i]? = some (op, span) → ∀ child ∈ op.children,
    child < p.operations.length ∧ child < i ∧ p.childLists.count child = 1
  accessors : ∀ m ∈ p.methods, ∀ property, m.property = some property →
    property.toNat < p.properties.length
  setters : ∀ m ∈ p.methods, m.kind = .propertySet → m.property ≠ none
  references : ∀ property receiver arguments span,
    (Operation.propertyReference property receiver arguments, span) ∈ p.operations →
    property.toNat < p.properties.length
  methods : ∀ b ∈ p.bodies, b.method.toNat < p.methods.length
  /-- A root is there and nobody's child. -/
  roots : ∀ b ∈ p.bodies, ∃ root, b.root.position? = some root ∧
    root < p.operations.length ∧ root ∉ p.childLists
  distinctRoots : (p.bodies.map Body.root).Nodup

theorem map_child_claims (p : UnitParts) : p.claims.map Claim.child = p.childLists :=
  Claim.map_child_ofOperations p.operations

theorem firstFault?_claims_eq_none_iff :
    Claim.firstFault? p.operations.length p.claims = none ↔
      ∀ i op span, p.operations[i]? = some (op, span) → ∀ child ∈ op.children,
        child < p.operations.length ∧ child < i ∧ p.childLists.count child = 1 := by
  rw [Claim.firstFault?_eq_none_iff, map_child_claims, List.nodup_iff_count_eq_one]
  constructor
  · rintro ⟨hsound, honce⟩ i op span hop child hchild
    obtain ⟨hsize, horder⟩ :=
      hsound ⟨i, child⟩ (Claim.mem_ofOperations_iff.2 ⟨op, span, hop, hchild⟩)
    exact ⟨hsize, horder, honce child <|
      List.mem_flatMap.2 ⟨(op, span), List.mem_of_getElem? hop, hchild⟩⟩
  · intro h
    refine ⟨fun c hc => ?_, fun child hchild => ?_⟩
    · obtain ⟨op, span, hop, hmem⟩ := Claim.mem_ofOperations_iff.1 hc
      exact ⟨(h _ op span hop _ hmem).1, (h _ op span hop _ hmem).2.1⟩
    · obtain ⟨⟨op, span⟩, hop, hmem⟩ := List.mem_flatMap.1 hchild
      obtain ⟨i, hi⟩ := List.mem_iff_getElem?.1 hop
      exact (h i op span hi child hmem).2.2

theorem propertyFault?_eq_none_iff {property : UInt32} :
    p.propertyFault? property = none ↔ property.toNat < p.properties.length := by
  simp [propertyFault?]

theorem methodFault?_eq_none_iff {m : Method} :
    p.methodFault? m = none ↔
      (∀ property, m.property = some property → property.toNat < p.properties.length) ∧
        (m.kind = .propertySet → m.property ≠ none) := by
  rw [methodFault?]
  cases hproperty : m.property with
  | none => simp
  | some property => simp [propertyFault?_eq_none_iff]

theorem referenceFault?_eq_none_iff {op : Operation Ref} :
    p.referenceFault? op = none ↔
      ∀ property receiver arguments, op = .propertyReference property receiver arguments →
        property.toNat < p.properties.length := by
  cases op with
  | propertyReference property receiver arguments =>
      simp [referenceFault?, propertyFault?_eq_none_iff]
  | _ => simp [referenceFault?]

theorem bodyFault?_eq_none_iff (before : List Body) (b : Body) :
    p.bodyFault? before b = none ↔
      (b.method.toNat < p.methods.length ∧ ∃ root, b.root.position? = some root ∧
        root < p.operations.length ∧ root ∉ p.childLists) ∧
      ∀ c ∈ before, c.root ≠ b.root := by
  rw [bodyFault?]
  rcases Nat.lt_or_ge b.method.toNat p.methods.length with hm | hm
  · rw [List.getElem?_eq_getElem hm]
    cases hroot : b.root.position? with
    | none => simp
    | some root =>
        rcases Nat.lt_or_ge root p.operations.length with hr | hr
        · rw [Option.filter_some, if_pos (decide_eq_true hr), map_child_claims]
          by_cases hchild : root ∈ p.childLists
          · simp [hchild]
          · simp [hm, hr, hchild]
        · rw [Option.filter_some, if_neg (by simpa using hr)]
          simp [Nat.not_lt.2 hr]
  · rw [List.getElem?_eq_none hm]
    simp [Nat.not_lt.2 hm]

/-- Nothing is wrong with well-formed parts, and with no others. -/
theorem firstViolation?_eq_none_iff : p.firstViolation? = none ↔ p.WellFormed := by
  simp only [firstViolation?, Option.or_eq_none_iff, firstFault?_claims_eq_none_iff,
    List.findSome?_eq_none_iff, methodFault?_eq_none_iff, referenceFault?_eq_none_iff,
    firstObjection_eq_none_iff_nodup bodyFault?_eq_none_iff]
  constructor
  · rintro ⟨hchildren, hmethods, hreferences, hbodies, hroots, -⟩
    exact
      { children := hchildren
        accessors := fun m hm => (hmethods m hm).1
        setters := fun m hm => (hmethods m hm).2
        references := fun property receiver arguments span hop =>
          hreferences _ hop property receiver arguments rfl
        methods := fun b hb => (hbodies b hb).1
        roots := fun b hb => (hbodies b hb).2
        distinctRoots := hroots }
  · intro h
    refine ⟨h.children, fun m hm => ⟨h.accessors m hm, h.setters m hm⟩, ?_,
      fun b hb => ⟨h.methods b hb, h.roots b hb⟩, h.distinctRoots, by simp⟩
    rintro ⟨_, span⟩ hop property receiver arguments rfl
    exact h.references property receiver arguments span hop

/-- In a loaded unit the parent of an operation is the one that names it. -/
theorem parent?_linkedBy_eq_some_iff (h : p.WellFormed) {i parent : Nat} :
    (Forest.linkedBy p.operations p.claims).parent? i = some parent ↔
      i ∈ (Forest.linkedBy p.operations p.claims).children parent := by
  obtain ⟨hsound, hnodup⟩ :=
    Claim.firstFault?_eq_none_iff.1 (firstFault?_claims_eq_none_iff.2 h.children)
  have hnamed : i ∈ (Forest.linkedBy p.operations p.claims).children parent ↔
      ⟨parent, i⟩ ∈ p.claims := by
    rw [claims, Claim.mem_ofOperations_iff, Forest.children, Forest.node?_linkedBy]
    cases p.operations[parent]? with
    | none => simp
    | some op =>
        constructor
        · intro hi
          exact ⟨op.1, op.2, rfl, hi⟩
        · rintro ⟨_, _, hop, hi⟩
          cases hop
          exact hi
  rw [hnamed]
  rcases Nat.lt_or_ge i p.operations.length with hi | hi
  · rw [Forest.parent?_linkedBy hi, Claim.holder?_eq_some_iff hnodup]
  · have hnode : (Forest.linkedBy p.operations p.claims).node? i = none := by
      rw [Forest.node?_linkedBy, List.getElem?_eq_none hi, Option.map_none]
    rw [Forest.parent?, hnode]
    refine iff_of_false (by simp) fun hclaim => ?_
    exact absurd (hsound _ hclaim).1 (Nat.not_lt.2 hi)

/-- Whatever text the parts of a unit are decoded from, reading it is loading them. This
accepts the well-formed parts and no others. An accepted unit has the given parts and links
every operation to the one that names it; a refusal gives the first violation. -/
theorem load_iff_wellFormed (p : UnitParts) :
    ((∃ text, ofText text = .ok p) ∧
      ∀ text, ofText text = .ok p →
        CompilationUnit.ofText text = p.load.mapError fun v => .refused v.message) ∧
      ((∃ u, p.load = .ok u) ↔ p.WellFormed) ∧
      (∀ u, p.load = .ok u → u.parts = p ∧
        ∀ i parent, u.forest.parent? i = some parent ↔ i ∈ u.forest.children parent) ∧
      ∀ v, p.load = .error v ↔ p.firstViolation? = some v := by
  refine ⟨⟨CompilationUnit.exists_ofText_eq p, fun text h => ?_⟩, ?_⟩
  · have hread := CompilationUnit.refines_ofText text
    rw [h] at hread
    exact hread
  · rw [load_eq]
    refine ⟨?_, ?_, fun v => verdict_eq_error_iff⟩
    · simp only [verdict_eq_ok_iff, exists_and_left, exists_eq', and_true,
        firstViolation?_eq_none_iff]
    · intro u hu
      obtain ⟨hviolation, rfl⟩ := verdict_eq_ok_iff.1 hu
      exact ⟨parts_assemble Forest.operations_linkedBy,
        fun i parent => parent?_linkedBy_eq_some_iff (firstViolation?_eq_none_iff.1 hviolation)⟩

theorem wellFormed_setter_body :
    WellFormed
      { file := "a.cs"
        generated := false
        source := none
        properties := [⟨"P", "T", false, .empty⟩]
        methods := [⟨"set_P", "T", .propertySet, some 0⟩]
        bodies := [⟨0, ⟨1⟩⟩]
        operations := [(.literal "", .empty), (.block [⟨0⟩, .absent], .empty)] } :=
  (load_iff_wellFormed _).2.1.1 ⟨_, rfl⟩

end OpLint.UnitParts
