import OpLint.Json.Record
import OpLint.Proofs.Json.Printed

/-!
# Readers of written values

A reader that gets back what was written does so whatever encloses the value, as long as
enough brackets are left; `Reads` counts those that the value itself takes. From words and
texts it lifts to lists and records.

For records the point is what a writer may leave out. `Written` says of each field, in
order, that its member is there and reads as the value, or that the member is missing and
the value is the default. Whatever is written like this is read back, and it does not
matter which members the writer chose to omit.
-/

namespace OpLint

/-! ## Vocabularies -/

/-- A vocabulary whose words tell its values apart. -/
class LawfulVocabulary (α : Type) [Vocabulary α] : Prop where
  ofWord?_word : ∀ a : α, Vocabulary.ofWord? (Vocabulary.word a) = some a

namespace Json

variable {α β : Type} {levels depth : Nat}

namespace Value

theorem draft_ne_null {v : Value} (h : v ≠ .null) : v.draft ≠ .null := by
  cases v with
  | null => exact absurd rfl h
  | number n =>
      rw [draft]
      cases Decimal.Numeral.value ⟨false, Nat.toDigits 10 n, [], none⟩ <;> simp
  | _ => simp [draft]

/-- The members of an object as a reader gets them. -/
def drafted (ms : List (String × Value)) : List (String × Draft) :=
  ms.map fun (k, v) => (k, v.draft)

theorem draft_object (ms : List (String × Value)) :
    (object ms).draft = .object ((drafted ms).map fun (k, d) => (some k, d)) .closed := by
  rw [draft, memberDrafts_eq_map, drafted]

theorem draft_array (vs : List Value) : (array vs).draft = .array (vs.map draft) .closed := by
  rw [draft, drafts_eq_map]

end Value

namespace Reader

/-- Whether `read` gets `a` from `v` when more than `levels` brackets are left. -/
def Reads (read : Reader α) (levels : Nat) (v : Value) (a : α) : Prop :=
  ∀ depth, levels < depth → read depth v.draft = .ok a

variable {read : Reader α} {v : Value} {a : α}

theorem Reads.mono {more : Nat} (h : read.Reads levels v a) (hle : levels ≤ more) :
    read.Reads more v a :=
  fun depth hdepth => h depth (Nat.lt_of_le_of_lt hle hdepth)

theorem enter_of_lt (h : levels + 1 < depth) : enter depth = .ok (depth - 1) := by
  rw [enter, if_neg (by omega)]

theorem reads_word (w : UInt32) : word.Reads 0 (.number w.toNat) w := by
  intro depth _
  have hlt : w.toNat < UInt32.size := w.toNat_lt
  rw [Value.draft_number (by simp only [UInt32.size, Decimal.greatestWord] at *; omega), word,
    if_pos hlt, UInt32.ofNat_toNat]

theorem reads_text (s : String) : text.Reads 0 (.string s) s :=
  fun _ _ => rfl

theorem reads_flag (b : Bool) : flag.Reads 0 (.bool b) b :=
  fun _ _ => rfl

theorem ofName_word [Vocabulary α] [LawfulVocabulary α] (a : α) :
    ofName (Vocabulary.word a) = .ok a := by
  rw [ofName, LawfulVocabulary.ofWord?_word]

theorem reads_name [Vocabulary α] [LawfulVocabulary α] (a : α) :
    name.Reads 0 (.string (Vocabulary.word a)) a :=
  fun _ _ => ofName_word a

theorem reads_variant [Vocabulary α] [LawfulVocabulary α] (a : α) :
    variant.Reads 0 (.string (Vocabulary.word a)) a :=
  fun _ _ => ofName_word a

theorem reads_keptVariant [Vocabulary α] [LawfulVocabulary α] (a : α) :
    keptVariant.Reads 0 (.string (Vocabulary.word a)) a :=
  fun _ _ => ofName_word a

theorem Reads.map (f : α → β) (h : read.Reads levels v a) : (map f read).Reads levels v (f a) := by
  intro depth hdepth
  rw [Reader.map, h depth hdepth]
  rfl

theorem Reads.optional (h : read.Reads levels v a) (hv : v ≠ .null) :
    (optional read).Reads levels v (some a) := by
  intro depth hdepth
  have hd := Value.draft_ne_null hv
  have hread := h depth hdepth
  cases hdraft : v.draft <;> simp_all [Reader.optional, Except.map]

theorem reads_list {write : α → Value} {as : List α}
    (h : ∀ a ∈ as, read.Reads levels (write a) a) :
    (list read).Reads (levels + 1) (.array (as.map write)) as := by
  intro depth hdepth
  have hitems : ((as.map write).map Value.draft).mapM (read (depth - 1)) = .ok as := by
    induction as with
    | nil => rfl
    | cons a as ih =>
        have ha := h a List.mem_cons_self (depth - 1) (by omega)
        have has := ih fun b hb => h b (List.mem_cons_of_mem _ hb)
        rw [List.map_cons, List.map_cons, List.mapM_cons, ha, has]
        rfl
  rw [Value.draft_array, list, enter_of_lt hdepth]
  show ((List.map Value.draft (as.map write)).mapM (read (depth - 1)) >>= _) = _
  rw [hitems]
  rfl

end Reader

/-! ## Records -/

namespace Fields

section Steps

variable {αs : List Type} {fields : Fields αs} {strict : Bool} {key : String} {d : Draft}
  {members : List (String × Draft)} {slots : Slots αs}

/-- A member that belongs to a field is read into its slot. -/
theorem fillAll_of_fill_eq_some {result : Except Error (Slots αs)}
    (h : fields.fill depth key d slots = some result) :
    fields.fillAll strict depth ((key, d) :: members) slots =
      result >>= fields.fillAll strict depth members := by
  simp only [fillAll, h]

/-- Any other member is refused or passed over. -/
theorem fillAll_of_fill_eq_none (h : fields.fill depth key d slots = none) :
    fields.fillAll strict depth ((key, d) :: members) slots =
      if strict then .error (.unknownField key fields.names)
      else if d.isIntact then fields.fillAll strict depth members slots
      else .error .malformed := by
  simp only [fillAll, h]

end Steps

/-- The members that hold these values, each field written or left to its default. -/
inductive Written (levels : Nat) :
    {αs : List Type} → Fields αs → Values αs → List (String × Value) → Prop
  | nil : Written levels .nil () []
  | present {α : Type} {αs : List Type} {field : Field α} {rest : Fields αs} {a : α}
      {as : Values αs} {v : Value} {ms : List (String × Value)}
      (h : field.read.Reads levels v a) (hrest : Written levels rest as ms) :
      Written levels (.cons field rest) (a, as) ((field.name, v) :: ms)
  | absent {α : Type} {αs : List Type} {field : Field α} {rest : Fields αs} {a : α}
      {as : Values αs} {ms : List (String × Value)}
      (h : field.default? = some a) (hrest : Written levels rest as ms) :
      Written levels (.cons field rest) (a, as) ms

variable {αs : List Type} {fields : Fields αs} {as : Values αs} {ms : List (String × Value)}

/-- A value that may be absent is written if it is there. -/
theorem Written.option {field : Field (Option α)} {write : α → Value} (a? : Option α)
    (hdefault : field.default? = some none)
    (hread : ∀ a, field.read.Reads levels (write a) (some a)) (h : fields.Written levels as ms) :
    (cons field fields).Written levels (a?, as)
      ((a?.toList.map fun a => (field.name, write a)) ++ ms) := by
  cases a? with
  | none => exact .absent hdefault h
  | some a => exact .present (hread a) h

theorem Written.name_mem (h : fields.Written levels as ms) : ∀ m ∈ ms, m.1 ∈ fields.names := by
  induction h with
  | nil => simp
  | present _ _ ih =>
      intro m hm
      rcases List.mem_cons.1 hm with rfl | hm
      · exact List.mem_cons_self
      · exact List.mem_cons_of_mem _ (ih m hm)
  | absent _ _ ih => exact fun m hm => List.mem_cons_of_mem _ (ih m hm)

theorem Written.ne_of_drafted (h : fields.Written levels as ms) {name : String}
    (hname : name ∉ fields.names) : ∀ m ∈ Value.drafted ms, name ≠ m.1 := by
  rintro m hm rfl
  obtain ⟨m', hm', rfl⟩ := List.mem_map.1 hm
  exact hname (h.name_mem m' hm')

/-- Members of other names leave the first slot alone. -/
theorem fillAll_cons_of_ne {field : Field α} {strict : Bool} {members : List (String × Draft)}
    {slot : Option α} {slots filled : Slots αs} (hne : ∀ m ∈ members, field.name ≠ m.1)
    (h : fields.fillAll strict depth members slots = .ok filled) :
    (cons field fields).fillAll strict depth members (slot, slots) = .ok (slot, filled) := by
  induction members generalizing slots with
  | nil =>
      cases h
      rfl
  | cons m members ih =>
      obtain ⟨key, d⟩ := m
      have hkey : field.name ≠ key := hne _ List.mem_cons_self
      have hmore : ∀ m ∈ members, field.name ≠ m.1 := fun m hm => hne m (List.mem_cons_of_mem _ hm)
      cases hfill : fields.fill depth key d slots with
      | none =>
          have hcons : (cons field fields).fill depth key d (slot, slots) = none := by
            rw [fill, if_neg hkey, hfill]
            rfl
          rw [fillAll_of_fill_eq_none hfill] at h
          rw [fillAll_of_fill_eq_none hcons]
          cases strict with
          | true => cases h
          | false =>
              cases hintact : d.isIntact with
              | false => simp [hintact] at h
              | true =>
                  simp only [hintact] at h ⊢
                  exact ih hmore h
      | some result =>
          have hcons : (cons field fields).fill depth key d (slot, slots) =
              some (result.map (slot, ·)) := by
            rw [fill, if_neg hkey, hfill]
            rfl
          rw [fillAll_of_fill_eq_some hfill] at h
          rw [fillAll_of_fill_eq_some hcons]
          cases result with
          | error e => cases h
          | ok slots => exact ih hmore h

theorem Written.fillAll (h : fields.Written levels as ms) (hnames : fields.names.Nodup)
    (strict : Bool) (hdepth : levels < depth) :
    ∃ slots, fields.fillAll strict depth (Value.drafted ms) fields.unfilled = .ok slots ∧
      fields.complete slots = .ok as := by
  induction h with
  | nil => exact ⟨(), rfl, rfl⟩
  | @present _ _ field rest a as v ms hread hrest ih =>
      obtain ⟨hfresh, hnames⟩ := List.nodup_cons.1 hnames
      obtain ⟨slots, hfill, hcomplete⟩ := ih hnames
      refine ⟨(some a, slots), ?_, ?_⟩
      · have hhead : (cons field rest).fill depth field.name v.draft (none, rest.unfilled) =
            some (.ok (some a, rest.unfilled)) := by
          rw [fill, if_pos rfl, hread depth hdepth]
          rfl
        rw [Value.drafted, List.map_cons, unfilled, fillAll_of_fill_eq_some hhead]
        exact fillAll_cons_of_ne (hrest.ne_of_drafted hfresh) hfill
      · rw [complete, hcomplete]
        rfl
  | @absent _ _ field rest a as ms hdefault hrest ih =>
      obtain ⟨hfresh, hnames⟩ := List.nodup_cons.1 hnames
      obtain ⟨slots, hfill, hcomplete⟩ := ih hnames
      refine ⟨(none, slots), fillAll_cons_of_ne (hrest.ne_of_drafted hfresh) hfill, ?_⟩
      rw [complete, hdefault, hcomplete]
      rfl

end Fields

namespace Record

variable {r : Record β} {as : Values r.types} {ms : List (String × Value)}

theorem ofKeptMembers_written (h : r.fields.Written levels as ms) (hnames : r.fields.names.Nodup)
    (hdepth : levels < depth) : r.ofKeptMembers depth (Value.drafted ms) = .ok (r.make as) := by
  obtain ⟨slots, hfill, hcomplete⟩ := h.fillAll hnames r.strict hdepth
  rw [ofKeptMembers, hfill]
  show r.make <$> r.fields.complete slots = _
  rw [hcomplete]
  rfl

theorem reads_written (r : Record β) (as : Values r.types) (h : r.fields.Written levels as ms)
    (hnames : r.fields.names.Nodup) : r.read.Reads (levels + 1) (.object ms) (r.make as) := by
  intro depth hdepth
  have hinner : levels < depth - 1 := by omega
  rw [Value.draft_object, read, Reader.enter_of_lt hdepth, Draft.legible_map_some]
  show r.ofKeptMembers (depth - 1) (Value.drafted ms) = _
  exact ofKeptMembers_written h hnames hinner

end Record

end Json

end OpLint
