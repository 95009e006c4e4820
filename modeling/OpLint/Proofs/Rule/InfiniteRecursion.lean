import OpLint.Proofs.Forest.Tree
import OpLint.Proofs.Text.Template
import OpLint.Rule.InfiniteRecursion

/-!
# Self-assignments in a tree

On a tree the rule against infinite recursion is a pattern: an assignment whose target is a
reference to the property on the running instance. Whether the assignment always runs is a
question about what encloses it. The handler of the rule answers both by look-ups in the
forest, down through references and up through parent links, and in a checked forest it
answers what the tree says.
-/

namespace OpLint

namespace Tree

/-- The property that a tree refers to, if it does so on the running instance. -/
def ownProperty? : Tree → Option UInt32
  | node (.propertyReference property
      (some (node (.instanceReference .containingTypeInstance _) _)) _) _ => some property
  | _ => none

/-- The property that a tree assigns on the running instance. -/
def assignedProperty? : Tree → Option UInt32
  | node (.simpleAssignment (some target) _) _ => target.ownProperty?
  | _ => none

/-- Whether what is enclosed by these trees may run later, or not at all. -/
def defers (above : List Tree) : Bool :=
  above.any fun t =>
    t.kind = .conditional || t.kind = .anonymousFunction || t.kind = .localFunction

end Tree

namespace InfiniteRecursion

variable {u : CompilationUnit}

/-- The diagnostic of an assignment in the setter of `property`. -/
def report (file : String) (property : Property) (span : Span) (deferred : Bool) :
    Diagnostic where
  file := file
  start := span.start
  length := if span.stop < span.start then 0 else span.stop - span.start
  message := "Do not assign the property '" ++ property.name ++
    if deferred then "' within its setter. This call might result in an infinite recursion."
    else "' within its setter. This call will result in an infinite recursion."
  severity := .warning
  code := "CA2011"
  category := .reliability
  related :=
    if property.span.stop ≤ property.span.start then []
    else [⟨file, property.span.start, property.span.stop - property.span.start,
      "Property '" ++ property.name ++ "' is declared here."⟩]

theorem length_eq (span : Span) :
    span.length = if span.stop < span.start then 0 else span.stop - span.start := by
  rw [Span.length]
  split
  · next h =>
      have hlt : span.stop.toNat < span.start.toNat := h
      rw [Nat.sub_eq_zero_of_le (Nat.le_of_lt hlt)]
      rfl
  · next h =>
      have hle : span.start ≤ span.stop := UInt32.not_lt.1 h
      rw [← UInt32.toNat_sub_of_le _ _ hle, UInt32.ofNat_toNat]

/-- The name of the property stands in the message as it is. -/
theorem fill_definite (name : String) :
    Text.Template.fill definite.template [name] =
      "Do not assign the property '" ++ name ++
        "' within its setter. This call will result in an infinite recursion." := by
  have htemplate : definite.template =
      "Do not assign the property '" ++ Text.Template.placeholder 0 ++
        "' within its setter. This call will result in an infinite recursion." := by decide
  rw [htemplate]
  exact Text.Template.fill_singleton name (by decide) (by decide)

theorem fill_possible (name : String) :
    Text.Template.fill possible.template [name] =
      "Do not assign the property '" ++ name ++
        "' within its setter. This call might result in an infinite recursion." := by
  have htemplate : possible.template =
      "Do not assign the property '" ++ Text.Template.placeholder 0 ++
        "' within its setter. This call might result in an infinite recursion." := by decide
  rw [htemplate]
  exact Text.Template.fill_singleton name (by decide) (by decide)

theorem create_eq (file : String) (property : Property) (span : Span) (deferred : Bool) :
    (if deferred then possible else definite).create file span [property.name] =
      { report file property span deferred with related := [] } := by
  cases deferred with
  | true =>
      rw [if_pos rfl, Descriptor.create, fill_possible, length_eq]
      rfl
  | false =>
      rw [if_neg (by decide), Descriptor.create, fill_definite, length_eq]
      rfl

theorem related_report (file : String) (property : Property) (span : Span) (deferred : Bool) :
    (report file property span deferred).related =
      if property.span.isEmpty then []
      else [⟨file, property.span.start, property.span.length,
        s!"Property '{property.name}' is declared here."⟩] := by
  rw [report, Span.isEmpty]
  simp only [decide_eq_true_eq]
  split
  · rfl
  · next hspan =>
      rw [length_eq, if_neg fun hlt => hspan (UInt32.le_of_lt hlt)]
      rfl

theorem diagnostic_eq_report (file : String) (property : Property) (assignment : Nat) (span : Span)
    (deferred : Bool) :
    SelfAssignment.diagnostic ⟨assignment, property.name, property.span, span⟩
        (if deferred then .possible else .definite) file =
      report file property span deferred := by
  have hrelated := related_report file property span deferred
  have hdiagnostic : SelfAssignment.diagnostic ⟨assignment, property.name, property.span, span⟩
        (if deferred then .possible else .definite) file =
      let found := (if deferred then possible else definite).create file span [property.name]
      if property.span.isEmpty then found
      else found.withRelated file property.span
        s!"Property '{property.name}' is declared here." := by
    cases deferred <;> rfl
  rw [hdiagnostic, create_eq]
  simp only
  split
  · next hempty =>
      rw [if_pos hempty] at hrelated
      rw [← hrelated]
  · next hempty =>
      rw [if_neg hempty] at hrelated
      rw [Diagnostic.withRelated, List.nil_append, ← hrelated]

/-! ## What the handler finds -/

/-- The operation that a reference names, said by its tree. -/
theorem map_operation_get? (h : u.forest.Linked) (r : Ref) :
    r.position?.bind u.forest.tree? =
      (u.forest.get? r).map fun node =>
        .node (node.operation.map fun s => s.position?.bind u.forest.tree?) node.span := by
  rw [Forest.get?]
  cases r.position? with
  | none => rfl
  | some i => exact Forest.tree?_eq h i

theorem ownInstanceProperty?_eq (h : u.forest.Linked) (target : Ref) :
    ownInstanceProperty? u target =
      (target.position?.bind u.forest.tree?).bind Tree.ownProperty? := by
  rw [map_operation_get? h, ownInstanceProperty?]
  cases u.forest.get? target with
  | none => rfl
  | some node =>
      obtain ⟨op, span, parent⟩ := node
      cases op with
      | propertyReference property receiver arguments =>
          simp only [Option.map_some, Operation.map, map_operation_get? h receiver,
            Option.bind_some]
          cases u.forest.get? receiver with
          | none => rfl
          | some node =>
              obtain ⟨op, span, parent⟩ := node
              cases op with
              | instanceReference kind isImplicit => cases kind <;> rfl
              | _ => rfl
      | _ => rfl

theorem isDeferredOrConditional_eq (kind : OperationKind) :
    kind.isDeferredOrConditional =
      (kind = .conditional || kind = .anonymousFunction || kind = .localFunction) := by
  cases kind <;> rfl

theorem certainty_eq (h : u.forest.Linked) (i : Nat) :
    certainty u.forest i =
      if Tree.defers (u.forest.enclosing i) then .possible else .definite := by
  have hkind (j : Nat) : (u.forest.node? j).map (·.operation.kind) =
      (u.forest.tree? j).map Tree.kind := by
    rw [Forest.tree?_eq h]
    cases u.forest.node? j with
    | none => rfl
    | some node => exact congrArg some (Operation.kind_map _ _).symm
  have hdefers : OperationKind.isDeferredOrConditional ∘ Tree.kind = fun t : Tree =>
      t.kind = .conditional || t.kind = .anonymousFunction || t.kind = .localFunction :=
    funext fun t => isDeferredOrConditional_eq t.kind
  rw [certainty, Tree.defers, Forest.enclosing]
  simp only [hkind]
  rw [← List.map_filterMap, List.any_map, hdefers]

theorem guard_bind {α : Type} (p : Prop) [Decidable p] (f : Unit → Option α) :
    (guard p >>= f) = if p then f () else none := by
  show ((if p then pure () else failure : Option Unit) >>= f) = _
  split <;> rfl

/-- What the handler reports about an operation, read off its tree. -/
theorem output_visitAssignment (h : u.forest.Linked) {m : Method} {i : Nat} {t : Tree}
    (ht : u.forest.tree? i = some t) {own : UInt32} {property : Property}
    (hsetter : m.kind = .propertySet) (hown : m.property = some own)
    (hproperty : u.symbols.property? own = some property) :
    (visitAssignment m ⟨u, m, i⟩).output =
      if t.assignedProperty? = some own then
        [report u.file property t.span (Tree.defers (u.forest.enclosing i))]
      else [] := by
  have hisSetter : m.isSetter = true := by rw [Method.isSetter, hsetter]; rfl
  rw [Forest.tree?_eq h] at ht
  obtain ⟨⟨op, span, parent⟩, hnode, rfl⟩ := Option.map_eq_some_iff.1 ht
  cases op with
  | simpleAssignment target value =>
      have hassigned : (Tree.node ((Operation.simpleAssignment target value).map fun s =>
          s.position?.bind u.forest.tree?) span).assignedProperty? =
          ownInstanceProperty? u target := by
        rw [ownInstanceProperty?_eq h, Operation.map]
        cases target.position?.bind u.forest.tree? <;> rfl
      have hfound : selfAssignment? u m i =
          (ownInstanceProperty? u target).bind fun assigned =>
            if assigned = own then some ⟨i, property.name, property.span, span⟩ else none := by
        rw [selfAssignment?, hnode]
        show (guard m.isSetter >>= fun _ => _ : Option SelfAssignment) = _
        rw [guard_bind, if_pos hisSetter, hown]
        cases ownInstanceProperty? u target with
        | none => rfl
        | some assigned =>
            show (guard (assigned = own) >>= fun _ => _ : Option SelfAssignment) = _
            rw [guard_bind, hproperty]
            rfl
      rw [visitAssignment, hfound, hassigned]
      cases ownInstanceProperty? u target with
      | none => rfl
      | some assigned =>
          by_cases heq : assigned = own
          · rw [Option.bind_some, if_pos heq, if_pos (congrArg some heq)]
            show [SelfAssignment.diagnostic _ (certainty u.forest i) u.file] = _
            rw [certainty_eq h, diagnostic_eq_report]
            rfl
          · rw [Option.bind_some, if_neg heq, if_neg fun hsome => heq (Option.some_inj.1 hsome)]
            rfl
  | _ =>
      have hfound : selfAssignment? u m i = none := by rw [selfAssignment?, hnode]
      rw [visitAssignment, hfound]
      rfl

end InfiniteRecursion

end OpLint
