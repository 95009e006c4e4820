import OpLint.Proofs.Json.ReadBack
import OpLint.Proofs.Verdict

/-!
# Refining one field of a record

Two records differ in one field, whose reader in the second record asks for more: it reads
the value as the first one does and then converts it, which may fail. The second record
refuses such a value when it meets it, while the first one reads on. So the two may stop at
different places, but they cannot disagree. Where the first record reads its values, the
second one answers with their conversion, and where the first one fails, so does the second.

What carries this through a text is that the slot of the refined field, once filled, stays
as it is: a value that cannot be converted is still there at the end.
-/

namespace OpLint.Json

variable {α β γ δ : Type} {depth : Nat}

/-- What a refined reader answers where the plain one answers `plain`. -/
def Refines (convert : α → Except Error β) (plain : Except Error α) (refined : Except Error β) :
    Prop :=
  match plain with
  | .ok a => refined = convert a
  | .error _ => ∃ e, refined = .error e

theorem Refines.of_bind {convert : α → Except Error β} {plain : Except Error α} :
    Refines convert plain (plain >>= convert) := by
  cases plain with
  | error e => exact ⟨e, rfl⟩
  | ok a => rfl

/-- Two steps refine if both do, provided the second one keeps what cannot be converted. -/
theorem Refines.bind {convert : α → Except Error β} {convert' : γ → Except Error δ}
    {plain : Except Error α} {refined : Except Error β} {next : α → Except Error γ}
    {next' : β → Except Error δ} (h : Refines convert plain refined)
    (hok : ∀ a b, convert a = .ok b → Refines convert' (next a) (next' b))
    (herror : ∀ a e, convert a = .error e → ∀ c, next a = .ok c → convert' c = .error e) :
    Refines convert' (plain >>= next) (refined >>= next') := by
  cases plain with
  | error e =>
      obtain ⟨e', rfl⟩ := h
      exact ⟨e', rfl⟩
  | ok a =>
      obtain rfl : refined = convert a := h
      cases hconvert : convert a with
      | ok b => exact hok a b hconvert
      | error e =>
          show Refines convert' (next a) (.error e)
          cases hnext : next a with
          | error e' => exact ⟨e, rfl⟩
          | ok c => exact (herror a e hconvert c hnext).symm

namespace Fields

variable {f : α → Except Error β}

/-- The two field lists agree but for one field, which the second one refines by `f`. -/
inductive OneRefined (f : α → Except Error β) :
    {αs βs : List Type} → Fields αs → Fields βs → Type 1
  | here {αs : List Type} {field : Field α} {field' : Field β} (hname : field'.name = field.name)
      (hread : ∀ depth d, field'.read depth d = field.read depth d >>= f)
      (hdefault : field.default?.map f = field'.default?.map .ok) (rest : Fields αs) :
      OneRefined f (.cons field rest) (.cons field' rest)
  | there {τ : Type} {αs βs : List Type} {fields : Fields αs} {fields' : Fields βs}
      (field : Field τ) (one : OneRefined f fields fields') :
      OneRefined f (.cons field fields) (.cons field fields')

namespace OneRefined

/-- Converts the value of the refined field. -/
def values : {αs βs : List Type} → {fields : Fields αs} → {fields' : Fields βs} →
    OneRefined f fields fields' → Values αs → Except Error (Values βs)
  | _, _, _, _, here .., (a, as) => (f a).map (·, as)
  | _, _, _, _, there _ one, (c, as) => (one.values as).map (c, ·)

/-- Converts the slot of the refined field, if it is filled. -/
def slots : {αs βs : List Type} → {fields : Fields αs} → {fields' : Fields βs} →
    OneRefined f fields fields' → Slots αs → Except Error (Slots βs)
  | _, _, _, _, here .., (slot, as) => (slot.mapM f).map (·, as)
  | _, _, _, _, there _ one, (slot, as) => (one.slots as).map (slot, ·)

variable {αs βs : List Type} {fields : Fields αs} {fields' : Fields βs}
  (one : OneRefined f fields fields') {s s' : Slots αs} {t : Slots βs} {key : String} {d : Draft}

theorem slots_unfilled : one.slots fields.unfilled = .ok fields'.unfilled := by
  induction one with
  | here => rfl
  | there field one ih =>
      rw [unfilled, slots, ih]
      rfl

/-- A member goes to the same slot, with its value converted if the slot is the refined one. -/
theorem fill_eq (h : one.slots s = .ok t) (depth : Nat) (key : String) (d : Draft) :
    fields'.fill depth key d t = (fields.fill depth key d s).map (· >>= one.slots) := by
  induction one with
  | @here _ field field' hname hread hdefault rest =>
      obtain ⟨slot, s⟩ := s
      obtain ⟨slot', hslot, rfl⟩ := map_eq_ok_iff.1 h
      rw [fill, fill, hname]
      split
      · have hsome : slot'.isSome = slot.isSome := by
          cases slot with
          | none => cases hslot; rfl
          | some a => obtain ⟨b, _, rfl⟩ := map_eq_ok_iff.1 hslot; rfl
        rw [hsome, Option.map_some]
        split
        · rfl
        · rw [hread]
          cases field.read depth d with
          | error e => rfl
          | ok a =>
              show some ((f a).map _) = some (((f a).map some).map _)
              cases f a <;> rfl
      · cases rest.fill depth key d s with
        | none => rfl
        | some result =>
            cases result with
            | error e => rfl
            | ok u =>
                show some (.ok (slot', u)) = some ((slot.mapM f).map (·, u))
                rw [hslot]
                rfl
  | there field one ih =>
      obtain ⟨slot, s⟩ := s
      obtain ⟨t, hs, rfl⟩ := map_eq_ok_iff.1 h
      rw [fill, fill]
      split
      · rw [Option.map_some]
        split
        · rfl
        · cases field.read depth d with
          | error e => rfl
          | ok a =>
              show some (.ok (some a, t)) = some ((one.slots s).map (some a, ·))
              rw [hs]
              rfl
      · rw [ih hs]
        cases fill depth key d _ s with
        | none => rfl
        | some result =>
            cases result with
            | error e => rfl
            | ok u => rfl

/-- A value that cannot be converted stays in its slot. -/
theorem slots_fill_error {e : Error} (h : one.slots s = .error e)
    (hfill : fields.fill depth key d s = some (.ok s')) : one.slots s' = .error e := by
  induction one with
  | @here _ field field' hname hread hdefault rest =>
      obtain ⟨slot, s⟩ := s
      have hslot : slot.mapM f = .error e := map_eq_error_iff.1 h
      rw [fill] at hfill
      split at hfill
      · cases slot with
        | none => cases hslot
        | some a => cases hfill
      · obtain ⟨result, -, hresult⟩ := Option.map_eq_some_iff.1 hfill
        obtain ⟨u, -, rfl⟩ := map_eq_ok_iff.1 hresult
        rw [slots, hslot]
        rfl
  | there field one ih =>
      obtain ⟨slot, s⟩ := s
      have hs : one.slots s = .error e := map_eq_error_iff.1 h
      rw [fill] at hfill
      split at hfill
      · split at hfill
        · cases hfill
        · obtain ⟨a, -, rfl⟩ := map_eq_ok_iff.1 (Option.some_inj.1 hfill)
          rw [slots, hs]
          rfl
      · obtain ⟨result, hresult, hmap⟩ := Option.map_eq_some_iff.1 hfill
        obtain ⟨u, rfl, rfl⟩ := map_eq_ok_iff.1 hmap
        rw [slots, ih hs hresult]
        rfl

theorem slots_fillAll_error {strict : Bool} {members : List (String × Draft)} {e : Error}
    (h : one.slots s = .error e) (hfill : fields.fillAll strict depth members s = .ok s') :
    one.slots s' = .error e := by
  induction members generalizing s with
  | nil =>
      cases hfill
      exact h
  | cons m members ih =>
      obtain ⟨key, d⟩ := m
      cases hhead : fields.fill depth key d s with
      | none =>
          rw [fillAll_of_fill_eq_none hhead] at hfill
          split at hfill
          · cases hfill
          · split at hfill
            · exact ih h hfill
            · cases hfill
      | some result =>
          rw [fillAll_of_fill_eq_some hhead] at hfill
          cases result with
          | error e' => cases hfill
          | ok u => exact ih (one.slots_fill_error h hhead) hfill

theorem refines_fillAll (h : one.slots s = .ok t) (strict : Bool) (depth : Nat)
    (members : List (String × Draft)) :
    Refines one.slots (fields.fillAll strict depth members s)
      (fields'.fillAll strict depth members t) := by
  induction members generalizing s t with
  | nil => exact h.symm
  | cons m members ih =>
      obtain ⟨key, d⟩ := m
      have hhead := one.fill_eq h depth key d
      cases hfill : fields.fill depth key d s with
      | none =>
          rw [hfill] at hhead
          rw [fillAll_of_fill_eq_none hfill, fillAll_of_fill_eq_none hhead]
          split
          · exact ⟨_, rfl⟩
          · split
            · exact ih h
            · exact ⟨_, rfl⟩
      | some result =>
          rw [hfill] at hhead
          rw [fillAll_of_fill_eq_some hfill, fillAll_of_fill_eq_some hhead]
          exact Refines.of_bind.bind (fun u u' hu => ih hu)
            fun u e hu u' hmore => one.slots_fillAll_error hu hmore

theorem complete_eq (h : one.slots s = .ok t) :
    fields'.complete t = fields.complete s >>= one.values := by
  induction one with
  | @here _ field field' hname hread hdefault rest =>
      obtain ⟨slot, s⟩ := s
      obtain ⟨slot', hslot, rfl⟩ := map_eq_ok_iff.1 h
      have hvalue : (slot <|> field.default?).map f = (slot' <|> field'.default?).map .ok := by
        cases slot with
        | none => cases hslot; exact hdefault
        | some a => obtain ⟨b, hb, rfl⟩ := map_eq_ok_iff.1 hslot; exact congrArg some hb
      rw [complete, complete]
      cases hplain : slot <|> field.default? with
      | none =>
          have hrefined : (slot' <|> field'.default?) = none := by
            rw [hplain, Option.map_none, eq_comm, Option.map_eq_none_iff] at hvalue
            exact hvalue
          simp only [hrefined, hname]
          rfl
      | some a =>
          obtain ⟨b, hrefined, hb⟩ : ∃ b, (slot' <|> field'.default?) = some b ∧ f a = .ok b := by
            rw [hplain, Option.map_some, eq_comm, Option.map_eq_some_iff] at hvalue
            obtain ⟨b, hrefined, hb⟩ := hvalue
            exact ⟨b, hrefined, hb.symm⟩
          simp only [hrefined]
          cases rest.complete s with
          | error e => rfl
          | ok as =>
              show .ok (b, as) = (f a).map (·, as)
              rw [hb]
              rfl
  | there field one ih =>
      obtain ⟨slot, s⟩ := s
      obtain ⟨t, hs, rfl⟩ := map_eq_ok_iff.1 h
      rw [complete, complete, ih hs]
      cases slot <|> field.default? with
      | none => rfl
      | some c =>
          cases complete _ s with
          | error e => rfl
          | ok as => rfl

theorem values_complete_error {e : Error} {as : Values αs} (h : one.slots s = .error e)
    (hcomplete : fields.complete s = .ok as) : one.values as = .error e := by
  induction one with
  | @here _ field field' hname hread hdefault rest =>
      obtain ⟨slot, s⟩ := s
      have hslot : slot.mapM f = .error e := map_eq_error_iff.1 h
      cases slot with
      | none => cases hslot
      | some a =>
          have ha : f a = .error e := map_eq_error_iff.1 hslot
          obtain ⟨as, -, rfl⟩ := map_eq_ok_iff.1 hcomplete
          rw [values, ha]
          rfl
  | there field one ih =>
      obtain ⟨slot, s⟩ := s
      have hs : one.slots s = .error e := map_eq_error_iff.1 h
      rw [complete] at hcomplete
      split at hcomplete
      · obtain ⟨as, has, rfl⟩ := map_eq_ok_iff.1 hcomplete
        rw [values, ih hs has]
        rfl
      · cases hcomplete

/-- Converts the values at the head of an array. -/
def head (result : Values αs × List Draft) : Except Error (Values βs × List Draft) :=
  (one.values result.1).map (·, result.2)

/-- The values after the refined one are read alike. -/
theorem refines_ofItems_rest {rest : Fields αs} {a : α} {b : β} (h : f a = .ok b)
    (ending : Ending) (whole : String) (seen : Nat) (items : List Draft) :
    Refines (fun result => ((f result.1.1).map (·, result.1.2)).map (·, result.2))
      (do let (as, more) ← rest.ofItems depth ending whole seen items
          return ((a, as), more))
      (do let (as, more) ← rest.ofItems depth ending whole seen items
          return ((b, as), more)) := by
  cases rest.ofItems depth ending whole seen items with
  | error e => exact ⟨e, rfl⟩
  | ok result =>
      show .ok ((b, result.1), result.2) = ((f a).map _).map _
      rw [h]
      rfl

theorem ofItems_rest_error {rest : Fields αs} {a : α} {ending : Ending} {whole : String}
    {seen : Nat} {items : List Draft} {result : (α × Values αs) × List Draft}
    (h : (do let (as, more) ← rest.ofItems depth ending whole seen items
             return ((a, as), more)) = .ok result) : result.1.1 = a := by
  cases hrest : rest.ofItems depth ending whole seen items with
  | error e => rw [hrest] at h; cases h
  | ok result => rw [hrest] at h; cases h; rfl

theorem refines_ofItems (depth : Nat) (ending : Ending) (whole : String) (seen : Nat)
    (items : List Draft) :
    Refines one.head (fields.ofItems depth ending whole seen items)
      (fields'.ofItems depth ending whole seen items) := by
  induction one generalizing seen items with
  | @here _ field field' hname hread hdefault rest =>
      cases items with
      | nil =>
          cases ending with
          | cut => exact ⟨_, rfl⟩
          | closed =>
              rw [ofItems, ofItems]
              cases hplain : field.default? with
              | none =>
                  rw [hplain, Option.map_none, eq_comm, Option.map_eq_none_iff] at hdefault
                  rw [hdefault]
                  exact ⟨_, rfl⟩
              | some a =>
                  rw [hplain, Option.map_some, eq_comm, Option.map_eq_some_iff] at hdefault
                  obtain ⟨b, hrefined, hb⟩ := hdefault
                  rw [hrefined]
                  exact refines_ofItems_rest hb.symm _ _ _ _
      | cons d items =>
          rw [ofItems, ofItems, hread]
          refine Refines.of_bind.bind (fun a b hab => refines_ofItems_rest hab _ _ _ _) ?_
          intro a e hae result hresult
          obtain rfl := ofItems_rest_error hresult
          show ((f result.1.1).map _).map _ = _
          rw [hae]
          rfl
  | @there _ _ _ fields fields' field one ih =>
      have hrest (seen : Nat) (items : List Draft) (c : _) :
          Refines (there field one).head
            (do let (as, more) ← fields.ofItems depth ending whole seen items
                return ((c, as), more))
            (do let (as, more) ← fields'.ofItems depth ending whole seen items
                return ((c, as), more)) := by
        refine (ih seen items).bind ?_ ?_
        · rintro ⟨as, more⟩ ⟨bs, more'⟩ h
          obtain ⟨bs, hbs, heq⟩ := map_eq_ok_iff.1 h
          cases heq
          show .ok ((c, bs), more) = ((one.values as).map _).map _
          rw [hbs]
          rfl
        · rintro ⟨as, more⟩ e h _ ⟨⟩
          have has : one.values as = .error e := map_eq_error_iff.1 h
          show ((one.values as).map _).map _ = _
          rw [has]
          rfl
      cases items with
      | nil =>
          rw [ofItems, ofItems]
          cases ending with
          | cut => exact ⟨_, rfl⟩
          | closed =>
              cases field.default? with
              | none => exact ⟨_, rfl⟩
              | some c => exact hrest _ _ c
      | cons d items =>
          rw [ofItems, ofItems]
          cases field.read depth d with
          | error e => exact ⟨e, rfl⟩
          | ok c => exact hrest _ _ c

end OneRefined

end Fields

/-! ## Records -/

namespace Record

/-- The record of the values as they are read. -/
def plain (r : Record γ) : Record (Values r.types) :=
  { r with make := id }

theorem read_eq_map_plain (r : Record γ) (depth : Nat) (d : Draft) :
    r.read depth d = (r.plain.read depth d).map r.make := by
  cases d with
  | array items ending =>
      rw [read, read]
      cases Reader.enter depth with
      | error e => rfl
      | ok inner =>
          show (r.fields.ofItems inner ending r.titleWithSize 0 items >>= _) =
            (r.fields.ofItems inner ending r.titleWithSize 0 items >>= _).map r.make
          cases r.fields.ofItems inner ending r.titleWithSize 0 items with
          | error e => rfl
          | ok result =>
              obtain ⟨as, more⟩ := result
              cases more with
              | nil => cases ending <;> rfl
              | cons d more => rfl
  | object members ending =>
      rw [read, read]
      cases Reader.enter depth with
      | error e => rfl
      | ok inner =>
          obtain ⟨members, ending⟩ := Draft.legible members ending
          show (r.fields.fillAll r.strict inner members r.fields.unfilled >>= _) =
            (r.fields.fillAll r.strict inner members r.fields.unfilled >>= _).map r.make
          cases r.fields.fillAll r.strict inner members r.fields.unfilled with
          | error e => rfl
          | ok slots =>
              cases ending with
              | cut => rfl
              | closed =>
                  show r.make <$> r.fields.complete slots =
                    (id <$> r.fields.complete slots).map r.make
                  cases r.fields.complete slots <;> rfl
  | _ => rfl

variable {r : Record γ} {r' : Record δ} {f : α → Except Error β}

/-- A record one of whose fields is refined reads the converted values. -/
theorem refines_read (one : Fields.OneRefined f r.fields r'.fields)
    (hstrict : r'.strict = r.strict) (htitle : r'.titleWithSize = r.titleWithSize)
    (depth : Nat) (d : Draft) :
    Refines one.values (r.plain.read depth d) (r'.plain.read depth d) := by
  cases d with
  | array items ending =>
      rw [read, read]
      cases Reader.enter depth with
      | error e => exact ⟨e, rfl⟩
      | ok inner =>
          have hitems := one.refines_ofItems inner ending r.titleWithSize 0 items
          show Refines _ (r.fields.ofItems inner ending r.titleWithSize 0 items >>= _)
            (r'.fields.ofItems inner ending r'.titleWithSize 0 items >>= _)
          rw [htitle]
          refine hitems.bind ?_ ?_
          · rintro ⟨as, more⟩ ⟨bs, more'⟩ h
            obtain ⟨bs, hbs, heq⟩ := map_eq_ok_iff.1 h
            cases heq
            cases more with
            | nil =>
                cases ending with
                | closed => exact hbs.symm
                | cut => exact ⟨_, rfl⟩
            | cons d more => exact ⟨_, rfl⟩
          · rintro ⟨as, more⟩ e h as' hread
            have has : one.values as = .error e := map_eq_error_iff.1 h
            cases more with
            | nil =>
                cases ending with
                | closed => cases hread; exact has
                | cut => cases hread
            | cons d more => cases hread
  | object members ending =>
      rw [read, read]
      cases Reader.enter depth with
      | error e => exact ⟨e, rfl⟩
      | ok inner =>
          obtain ⟨members, ending⟩ := Draft.legible members ending
          have hfill := one.refines_fillAll one.slots_unfilled r.strict inner members
          show Refines _ (r.fields.fillAll r.strict inner members r.fields.unfilled >>= _)
            (r'.fields.fillAll r'.strict inner members r'.fields.unfilled >>= _)
          rw [hstrict]
          refine hfill.bind (fun s t h => ?_) (fun s e h as hread => ?_)
          · cases ending with
            | cut => exact ⟨_, rfl⟩
            | closed =>
                show Refines _ (id <$> r.fields.complete s) (id <$> r'.fields.complete t)
                rw [id_map, id_map, one.complete_eq h]
                exact Refines.of_bind
          · cases ending with
            | cut => cases hread
            | closed =>
                have hcomplete : id <$> r.fields.complete s = .ok as := hread
                rw [id_map] at hcomplete
                exact one.values_complete_error h hcomplete
  | _ => exact ⟨_, rfl⟩

end Record

theorem refines_run {read : Reader α} {read' : Reader β} {convert : α → Except Error β}
    (h : ∀ depth d, Refines convert (read depth d) (read' depth d)) (text : String) :
    Refines convert (Reader.run read text) (Reader.run read' text) := by
  rw [Reader.run, Reader.run]
  generalize Draft.ofText text = result
  obtain ⟨d, complete⟩ := result
  refine (h depthLimit d).bind (fun a b hab => ?_) (fun a e hae c hc => ?_)
  · cases complete with
    | true => exact hab.symm
    | false => exact ⟨_, rfl⟩
  · cases complete with
    | true => cases hc; exact hae
    | false => cases hc

end OpLint.Json
