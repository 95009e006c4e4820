import OpLint.Operation.Stored
import OpLint.Proofs.Json.ReadBack

/-!
# Reading a stored operation

A stored operation is read in two steps. Its kind is taken out of the object, wherever it
stands, and the members that were kept go to the record of that kind. The writer puts the
kind first and leaves out what the record has a default for, so each of the kinds asks for
one line: which fields are there, and which may be missing.
-/

namespace OpLint

open Json (Reader Record Value Fields Values)

instance : LawfulVocabulary OperationKind where
  ofWord?_word kind := by cases kind <;> rfl

instance : LawfulVocabulary InstanceReferenceKind where
  ofWord?_word kind := by cases kind <;> rfl

instance : LawfulVocabulary BinaryOperator where
  ofWord?_word operator := by cases operator <;> rfl

theorem Ref.reads_toJson (r : Ref) : Ref.read.Reads 0 r.toJson r :=
  (Reader.reads_word r.word).map Ref.mk

namespace Operation

/-! ## What stands beside the kind -/

theorem reads_refList (refs : List Ref) : (Reader.list Ref.read).Reads 1 (refList refs) refs :=
  Reader.reads_list fun r _ => r.reads_toJson

section Written

variable {αs : List Type} {rest : Fields αs} {as : Values αs} {ms : List (String × Value)}

theorem written_requiredRef (name : String) (r : Ref) (h : rest.Written 1 as ms) :
    (Fields.cons (requiredRef name) rest).Written 1 (r, as) ((name, r.toJson) :: ms) :=
  .present (r.reads_toJson.mono (by decide)) h

theorem written_optionalRef (name : String) (r : Ref) (h : rest.Written 1 as ms) :
    (Fields.cons (optionalRef name) rest).Written 1 (r, as) (optionalMember name r ++ ms) := by
  rw [optionalMember]
  split
  · next habsent =>
      have hr : r = .absent := by simpa [Ref.isAbsent] using habsent
      exact .absent (by rw [hr]; rfl) h
  · exact .present (r.reads_toJson.mono (by decide)) h

theorem written_optionalRefs (name : String) (refs : List Ref) (h : rest.Written 1 as ms) :
    (Fields.cons (optionalRefs name) rest).Written 1 (refs, as) ((name, refList refs) :: ms) :=
  .present (reads_refList refs) h

theorem written_requiredText (name s : String) (h : rest.Written 1 as ms) :
    (Fields.cons (requiredText name) rest).Written 1 (s, as) ((name, .string s) :: ms) :=
  .present ((Reader.reads_text s).mono (by decide)) h

theorem written_requiredOperator (operator : BinaryOperator) (h : rest.Written 1 as ms) :
    (Fields.cons requiredOperator rest).Written 1 (operator, as)
      (("operator", operatorText operator) :: ms) :=
  .present ((Reader.reads_keptVariant operator).mono (by decide)) h

end Written

/-- The record of its kind gets an operation back from its members. -/
theorem exists_written_members (op : Operation Ref) :
    ∃ values, (payload op.kind).fields.Written 1 values op.members ∧
      (payload op.kind).make values = op := by
  cases op with
  | block operations =>
      exact ⟨(operations, ()), written_optionalRefs _ _ .nil, rfl⟩
  | expressionStatement operation =>
      exact ⟨(operation, ()), written_requiredRef _ _ .nil, rfl⟩
  | variableDeclaration name initial =>
      have hinitial := written_optionalRef "initializer" initial .nil
      rw [List.append_nil] at hinitial
      exact ⟨(name, initial, ()), written_requiredText _ _ hinitial, rfl⟩
  | simpleAssignment target value =>
      exact ⟨(target, value, ()), written_requiredRef _ _ (written_requiredRef _ _ .nil), rfl⟩
  | compoundAssignment operator target value =>
      exact ⟨(operator, target, value, ()),
        written_requiredOperator _ (written_requiredRef _ _ (written_requiredRef _ _ .nil)), rfl⟩
  | binary operator left right =>
      exact ⟨(operator, left, right, ()),
        written_requiredOperator _ (written_requiredRef _ _ (written_requiredRef _ _ .nil)), rfl⟩
  | conditional condition whenTrue whenFalse =>
      have hwhenFalse := written_optionalRef "whenFalse" whenFalse .nil
      rw [List.append_nil] at hwhenFalse
      exact ⟨(condition, whenTrue, whenFalse, ()),
        written_requiredRef _ _ (written_requiredRef _ _ hwhenFalse), rfl⟩
  | loop condition body =>
      exact ⟨(condition, body, ()), written_optionalRef _ _ (written_requiredRef _ _ .nil), rfl⟩
  | returns value | throws value =>
      have hvalue := written_optionalRef "value" value .nil
      rw [List.append_nil] at hvalue
      exact ⟨(value, ()), hvalue, rfl⟩
  | invocation method receiver arguments =>
      exact ⟨(method, receiver, arguments, ()),
        written_requiredText _ _ (written_optionalRef _ _ (written_optionalRefs _ _ .nil)), rfl⟩
  | delegateCreation target =>
      exact ⟨(target, ()), written_requiredRef _ _ .nil, rfl⟩
  | anonymousFunction body =>
      exact ⟨(body, ()), written_requiredRef _ _ .nil, rfl⟩
  | localFunction name body =>
      exact ⟨(name, body, ()), written_requiredText _ _ (written_requiredRef _ _ .nil), rfl⟩
  | propertyReference property receiver arguments =>
      have harguments : (Fields.cons (optionalRefs "arguments") .nil).Written 1 (arguments, ())
          (if arguments.isEmpty then [] else [("arguments", refList arguments)]) := by
        split
        · next hempty =>
            exact .absent (by rw [List.isEmpty_iff.1 hempty]; rfl) .nil
        · exact written_optionalRefs _ _ .nil
      exact ⟨(property, receiver, arguments, ()),
        .present ((Reader.reads_word property).mono (by decide))
          (written_optionalRef _ _ harguments), rfl⟩
  | fieldReference field receiver =>
      have hreceiver := written_optionalRef "instance" receiver .nil
      rw [List.append_nil] at hreceiver
      exact ⟨(field, receiver, ()), written_requiredText _ _ hreceiver, rfl⟩
  | localReference name | parameterReference name =>
      exact ⟨(name, ()), written_requiredText _ _ .nil, rfl⟩
  | instanceReference kind isImplicit =>
      exact ⟨(kind, isImplicit, ()),
        .present ((Reader.reads_keptVariant kind).mono (by decide))
          (.present ((Reader.reads_flag isImplicit).mono (by decide)) .nil), rfl⟩
  | literal value =>
      exact ⟨(value, ()), written_requiredText _ _ .nil, rfl⟩
  | invalid children =>
      exact ⟨(children, ()), written_optionalRefs _ _ .nil, rfl⟩

theorem nodup_names_payload (kind : OperationKind) : (payload kind).fields.names.Nodup := by
  cases kind <;> decide

/-! ## The kind and the members beside it -/

theorem kind_not_mem_names_payload (kind : OperationKind) :
    "kind" ∉ (payload kind).fields.names := by
  cases kind <;> decide

section Keepable

variable {depth : Nat}

theorem isKeepable_string (s : String) : (Value.string s).draft.isKeepable depth = true := rfl

theorem isKeepable_bool (b : Bool) : (Value.bool b).draft.isKeepable depth = true := rfl

theorem isKeepable_word (w : UInt32) : (Value.number w.toNat).draft.isKeepable depth = true := by
  have hword : w.toNat < UInt32.size := w.toNat_lt
  rw [Value.draft_number (by simp only [UInt32.size, Decimal.greatestWord] at *; omega)]
  rfl

theorem isKeepable_toJson (r : Ref) : r.toJson.draft.isKeepable depth = true :=
  isKeepable_word r.word

theorem isKeepable_refList (refs : List Ref) (h : 1 < depth) :
    (refList refs).draft.isKeepable depth = true := by
  have hitems (inner : Nat) :
      Json.Draft.areKeepable inner ((refs.map Ref.toJson).map Value.draft) = true := by
    induction refs with
    | nil => rfl
    | cons r refs ih =>
        rw [List.map_cons, List.map_cons, Json.Draft.areKeepable, isKeepable_toJson, ih]
        rfl
  obtain ⟨inner, rfl⟩ : ∃ inner, depth = inner + 2 := ⟨depth - 2, by omega⟩
  rw [refList, Value.draft_array]
  exact hitems (inner + 1)

theorem isKeepable_optionalMember {name : String} {r : Ref} {m : String × Value}
    (h : m ∈ optionalMember name r) : m.2.draft.isKeepable depth = true := by
  rw [optionalMember] at h
  split at h
  · cases h
  · rw [List.mem_singleton.1 h]
    exact isKeepable_toJson r

/-- Everything beside the kind can be kept for later. -/
theorem isKeepable_members (op : Operation Ref) (h : 1 < depth) :
    ∀ m ∈ op.members, m.2.draft.isKeepable depth = true := by
  have hoptional (name : String) (r : Ref) :
      (∀ m ∈ optionalMember name r, m.2.draft.isKeepable depth = true) ↔ True :=
    iff_true_intro fun m hm => isKeepable_optionalMember hm
  cases op with
  | propertyReference property receiver arguments =>
      intro m hm
      rw [members, List.cons_append, List.mem_cons, List.mem_append] at hm
      rcases hm with rfl | hm | hm
      · exact isKeepable_word property
      · exact isKeepable_optionalMember hm
      · split at hm
        · cases hm
        · rw [List.mem_singleton.1 hm]
          exact isKeepable_refList arguments h
  | _ =>
      simp only [members, operatorText, List.cons_append, List.forall_mem_cons,
        List.forall_mem_append, hoptional, isKeepable_string, isKeepable_bool, isKeepable_toJson,
        isKeepable_refList _ h, List.not_mem_nil, false_implies, implies_true, and_self]

end Keepable

/-- A fold that puts every element behind what it holds already. -/
theorem foldlM_concat {α κ ε : Type} {f : κ × List α → α → Except ε (κ × List α)} {k : κ}
    {as : List α} (h : ∀ kept, ∀ a ∈ as, f (k, kept) a = .ok (k, kept ++ [a])) (kept : List α) :
    as.foldlM f (k, kept) = .ok (k, kept ++ as) := by
  induction as generalizing kept with
  | nil =>
      rw [List.append_nil]
      rfl
  | cons a as ih =>
      rw [List.foldlM_cons, h kept a List.mem_cons_self]
      show as.foldlM f (k, kept ++ [a]) = _
      rw [ih fun kept b hb => h kept b (List.mem_cons_of_mem _ hb), List.append_assoc]
      rfl

theorem splitKind_toJson (op : Operation Ref) {depth : Nat} (h : 1 < depth) :
    splitKind depth (Value.drafted (("kind", .string (Vocabulary.word op.kind)) :: op.members)) =
      .ok (some op.kind, Value.drafted op.members) := by
  obtain ⟨values, hwritten, -⟩ := exists_written_members op
  rw [splitKind, Value.drafted, List.map_cons, List.foldlM_cons]
  simp only [if_true]
  rw [Reader.reads_name op.kind depth (by omega)]
  refine foldlM_concat (fun kept m hm => ?_) []
  obtain ⟨m', hm', rfl⟩ := List.mem_map.1 hm
  have hkind : m'.1 ≠ "kind" := fun heq =>
    kind_not_mem_names_payload op.kind (heq ▸ hwritten.name_mem m' hm')
  simp only [hkind, if_false, isKeepable_members op h m' hm', if_true]
  rfl

theorem reads_toJson (op : Operation Ref) : Operation.read.Reads 2 op.toJson op := by
  intro depth hdepth
  obtain ⟨values, hwritten, hmake⟩ := exists_written_members op
  have hinner : 1 < depth - 1 := by omega
  have hlimit : 1 < Json.depthLimit := by decide
  have hkind := splitKind_toJson op hinner
  have hpayload := Record.ofKeptMembers_written hwritten (nodup_names_payload op.kind) hlimit
  rw [toJson, Value.draft_object, read, Reader.enter_of_lt (by omega), Json.Draft.legible_map_some]
  show (splitKind (depth - 1) _ >>= _) = _
  rw [hkind]
  show (payload op.kind).ofKeptMembers Json.depthLimit (Value.drafted op.members) = _
  rw [hpayload, hmake]

end Operation

end OpLint
