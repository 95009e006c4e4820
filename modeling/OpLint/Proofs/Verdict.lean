/-!
# The first objection

A check goes along a list and stops at the first element that it objects to. Some
checks judge each element by itself, others by the elements before it: a second
claim to a child is wrong because of the first one. `firstObjection` is the list
view of both, and `verdict` turns it into an answer.

A loop that carries a state is brought to this form by `foldlM_verdict`. All it asks
for is that the state after some elements is a function of those elements, and that
one step says what the judgement says.
-/

namespace OpLint

variable {α σ ε : Type}

/-! ## Steps that may fail -/

theorem bind_eq_ok_iff {β : Type} {x : Except ε α} {f : α → Except ε β} {b : β} :
    (x >>= f) = .ok b ↔ ∃ a, x = .ok a ∧ f a = .ok b := by
  cases x with
  | error e =>
      constructor
      · intro h
        cases h
      · rintro ⟨a, h, -⟩
        cases h
  | ok a =>
      constructor
      · intro h
        exact ⟨a, rfl, h⟩
      · rintro ⟨_, h, hf⟩
        cases h
        exact hf

theorem bind_eq_error_iff {β : Type} {x : Except ε α} {f : α → Except ε β} {e : ε} :
    (x >>= f) = .error e ↔ x = .error e ∨ ∃ a, x = .ok a ∧ f a = .error e := by
  cases x with
  | error e' =>
      constructor
      · intro h
        cases h
        exact .inl rfl
      · rintro (h | ⟨a, h, -⟩)
        · cases h
          rfl
        · cases h
  | ok a =>
      constructor
      · exact fun h => .inr ⟨a, rfl, h⟩
      · rintro (h | ⟨_, h, hf⟩)
        · cases h
        · cases h
          exact hf

theorem map_eq_ok_iff {β : Type} {x : Except ε α} {f : α → β} {b : β} :
    x.map f = .ok b ↔ ∃ a, x = .ok a ∧ f a = b := by
  cases x <;> simp [Except.map]

theorem map_eq_error_iff {β : Type} {x : Except ε α} {f : α → β} {e : ε} :
    x.map f = .error e ↔ x = .error e := by
  cases x <;> simp [Except.map]

theorem toOption_eq_some_iff {x : Except ε α} {a : α} : x.toOption = some a ↔ x = .ok a := by
  cases x <;> simp [Except.toOption]

theorem toOption_eq_none_iff {x : Except ε α} : x.toOption = none ↔ ∃ e, x = .error e := by
  cases x <;> simp [Except.toOption]

theorem mapError_eq_ok_iff {ε' : Type} {x : Except ε α} {f : ε → ε'} {a : α} :
    x.mapError f = .ok a ↔ x = .ok a := by
  cases x with
  | error e => exact iff_of_false nofun nofun
  | ok b =>
      show Except.ok b = Except.ok a ↔ _
      rw [Except.ok.injEq, Except.ok.injEq]

theorem mapError_eq_error_iff {ε' : Type} {x : Except ε α} {f : ε → ε'} {e : ε'} :
    x.mapError f = .error e ↔ ∃ cause, x = .error cause ∧ f cause = e := by
  cases x with
  | error cause =>
      show Except.error (f cause) = Except.error e ↔ _
      simp only [Except.error.injEq, exists_eq_left']
  | ok a =>
      constructor
      · intro h
        cases h
      · rintro ⟨cause, h, -⟩
        cases h

theorem forM_eq_ok_iff {f : α → Except ε Unit} {as : List α} :
    as.forM f = .ok () ↔ ∀ a ∈ as, f a = .ok () := by
  induction as with
  | nil => exact iff_of_true rfl fun a ha => by cases ha
  | cons a as ih =>
      rw [List.forM_eq_forM] at ih
      rw [List.forM_eq_forM, List.forM_cons, bind_eq_ok_iff, List.forall_mem_cons, ← ih]
      constructor
      · rintro ⟨⟨⟩, ha, has⟩
        exact ⟨ha, has⟩
      · rintro ⟨ha, has⟩
        exact ⟨⟨⟩, ha, has⟩

/-- Steps for all elements succeed if each of them does. -/
theorem mapM_eq_ok_iff {β : Type} {f : α → Except ε β} {as : List α} {bs : List β} :
    as.mapM f = .ok bs ↔ as.map f = bs.map .ok := by
  induction as generalizing bs with
  | nil =>
      show Except.ok [] = Except.ok bs ↔ [] = bs.map Except.ok
      rw [Except.ok.injEq, List.nil_eq, List.nil_eq, List.map_eq_nil_iff]
  | cons a as ih =>
      rw [List.mapM_cons, bind_eq_ok_iff]
      constructor
      · rintro ⟨b, hb, h⟩
        obtain ⟨bs, hbs, ⟨⟩⟩ := bind_eq_ok_iff.1 h
        rw [List.map_cons, List.map_cons, hb, ih.1 hbs]
      · intro h
        cases bs with
        | nil => cases h
        | cons b bs =>
            obtain ⟨hb, hbs⟩ := List.cons.inj h
            exact ⟨b, hb, bind_eq_ok_iff.2 ⟨bs, ih.2 hbs, rfl⟩⟩

theorem mapM_cons_eq_error_iff {β : Type} {f : α → Except ε β} {a : α} {as : List α} {e : ε} :
    (a :: as).mapM f = .error e ↔
      f a = .error e ∨ (∃ b, f a = .ok b) ∧ as.mapM f = .error e := by
  rw [List.mapM_cons]
  cases f a with
  | error e' =>
      show Except.error e' = Except.error e ↔ _
      simp
  | ok b =>
      cases as.mapM f with
      | error e' =>
          show Except.error e' = Except.error e ↔ _
          simp
      | ok bs =>
          refine iff_of_false nofun ?_
          rintro (h | ⟨-, h⟩) <;> cases h

/-- Such steps fail with the first one that fails. -/
theorem mapM_eq_error_iff {β : Type} {f : α → Except ε β} {as : List α} {e : ε} :
    as.mapM f = .error e ↔
      ∃ before a after, as = before ++ a :: after ∧ (∀ b ∈ before, ∃ c, f b = .ok c) ∧
        f a = .error e := by
  constructor
  · intro h
    induction as with
    | nil => cases h
    | cons a as ih =>
        rcases mapM_cons_eq_error_iff.1 h with ha | ⟨ha, has⟩
        · exact ⟨[], a, as, rfl, nofun, ha⟩
        · obtain ⟨before, b, after, rfl, hbefore, hb⟩ := ih has
          exact ⟨a :: before, b, after, rfl, List.forall_mem_cons.2 ⟨ha, hbefore⟩, hb⟩
  · rintro ⟨before, a, after, rfl, hbefore, ha⟩
    induction before with
    | nil => exact mapM_cons_eq_error_iff.2 (Or.inl ha)
    | cons b before ih =>
        obtain ⟨hb, hrest⟩ := List.forall_mem_cons.1 hbefore
        exact mapM_cons_eq_error_iff.2 (Or.inr ⟨hb, ih hrest⟩)

/-! ## Verdicts -/

/-- The answer of a check: its objection, else `a`. -/
def verdict (objection : Option ε) (a : σ) : Except ε σ :=
  match objection with
  | some e => .error e
  | none => .ok a

@[simp]
theorem verdict_none (a : σ) : verdict (none : Option ε) a = .ok a := rfl

@[simp]
theorem verdict_some (e : ε) (a : σ) : verdict (some e) a = .error e := rfl

theorem verdict_eq_ok_iff {objection : Option ε} {a b : σ} :
    verdict objection a = .ok b ↔ objection = none ∧ a = b := by
  cases objection <;> simp

theorem verdict_eq_error_iff {objection : Option ε} {a : σ} {e : ε} :
    verdict objection a = .error e ↔ objection = some e := by
  cases objection <;> simp

theorem verdict_bind_ok (objection : Option ε) (a : σ) :
    (verdict objection () >>= fun _ => .ok a) = verdict objection a := by
  cases objection <;> rfl

/-- Two checks in a row object to what the first one objects to, else the second. -/
theorem verdict_bind_verdict (o₁ o₂ : Option ε) (a : σ) :
    (verdict o₁ () >>= fun _ => verdict o₂ a) = verdict (o₁.or o₂) a := by
  cases o₁ <;> rfl

/-! ## Lists whose elements are judged by themselves -/

theorem forM_verdict {f : α → Except ε PUnit} {judge : α → Option ε}
    (h : ∀ a, f a = verdict (judge a) ⟨⟩) (as : List α) :
    as.forM f = verdict (as.findSome? judge) ⟨⟩ := by
  induction as with
  | nil => rfl
  | cons a as ih =>
      rw [List.forM_eq_forM, List.forM_cons, h a, List.findSome?_cons]
      rw [List.forM_eq_forM] at ih
      cases judge a with
      | none => exact ih
      | some e => rfl

theorem forM_flatMap {β : Type} (f : α → List β) (check : β → Except ε PUnit) (as : List α) :
    (as.flatMap f).forM check = as.forM fun a => (f a).forM check := by
  induction as with
  | nil => rfl
  | cons a as ih =>
      simp only [List.forM_eq_forM] at ih ⊢
      rw [List.flatMap_cons, List.forM_append, List.forM_cons, ih]

/-! ## Lists whose elements are judged by those before them -/

/-- The first objection to an element, judged by the elements before it. -/
def firstObjection (judge : List α → α → Option ε) (before : List α) :
    List α → Option ε
  | [] => none
  | a :: as => (judge before a).or (firstObjection judge (before ++ [a]) as)

variable {judge : List α → α → Option ε} {before as : List α}

theorem firstObjection_append (bs : List α) :
    firstObjection judge before (as ++ bs) =
      (firstObjection judge before as).or (firstObjection judge (before ++ as) bs) := by
  induction as generalizing before with
  | nil => simp [firstObjection]
  | cons a as ih => simp [firstObjection, ih, Option.or_assoc]

/-- Where an element must be good by itself and different from those before it, all
elements must be good and different. -/
theorem firstObjection_eq_none_iff_nodup {κ : Type} {good : α → Prop} {key : α → κ}
    (h : ∀ before a, judge before a = none ↔ good a ∧ ∀ b ∈ before, key b ≠ key a) :
    firstObjection judge before as = none ↔
      (∀ a ∈ as, good a) ∧ (as.map key).Nodup ∧ ∀ b ∈ before, ∀ a ∈ as, key b ≠ key a := by
  induction as generalizing before with
  | nil => simp [firstObjection]
  | cons a as ih =>
      rw [firstObjection, Option.or_eq_none_iff, h, ih]
      simp only [List.map_cons, List.nodup_cons, List.mem_cons, List.mem_append, List.mem_map,
        List.not_mem_nil, or_false, forall_eq_or_imp, not_exists, not_and]
      constructor
      · rintro ⟨⟨hgood, hbefore⟩, has, hnodup, hdistinct⟩
        exact ⟨⟨hgood, has⟩, ⟨fun c hc hkey => hdistinct a (.inr rfl) c hc hkey.symm, hnodup⟩,
          fun b hb => ⟨hbefore b hb, hdistinct b (.inl hb)⟩⟩
      · rintro ⟨⟨hgood, has⟩, ⟨hfresh, hnodup⟩, hbefore⟩
        refine ⟨⟨hgood, fun b hb => (hbefore b hb).1⟩, has, hnodup, ?_⟩
        rintro b (hb | rfl) c hc
        · exact (hbefore b hb).2 c hc
        · exact fun hkey => hfresh c hc hkey.symm

/-- An objection is to some element, and to none before it. -/
theorem firstObjection_eq_some_iff {e : ε} :
    firstObjection judge before as = some e ↔
      ∃ pre a post, as = pre ++ a :: post ∧ firstObjection judge before pre = none ∧
        judge (before ++ pre) a = some e := by
  constructor
  · intro h
    induction as generalizing before with
    | nil => cases h
    | cons a as ih =>
        rw [firstObjection, Option.or_eq_some_iff] at h
        rcases h with ha | ⟨ha, has⟩
        · exact ⟨[], a, as, rfl, rfl, by simpa using ha⟩
        · obtain ⟨pre, b, post, rfl, hpre, hb⟩ := ih has
          exact ⟨a :: pre, b, post, rfl, by simp [firstObjection, ha, hpre],
            by simpa using hb⟩
  · rintro ⟨pre, a, post, rfl, hpre, ha⟩
    rw [firstObjection_append, hpre, Option.none_or, firstObjection, ha, Option.some_or]

/-- Where both judge alike up to the first objection, elements may as well be judged by
themselves. -/
theorem firstObjection_eq_findSome? {check : α → Option ε}
    (h : ∀ pre a post, as = pre ++ a :: post → firstObjection judge before pre = none →
      judge (before ++ pre) a = check a) :
    firstObjection judge before as = as.findSome? check := by
  induction as generalizing before with
  | nil => rfl
  | cons a as ih =>
      have ha : judge before a = check a := by simpa using h [] a as rfl rfl
      rw [firstObjection, List.findSome?_cons, ← ha]
      cases hjudge : judge before a with
      | some e => rfl
      | none =>
          rw [Option.none_or]
          refine ih fun pre b post hb hpre => ?_
          have := h (a :: pre) b post (by rw [hb]; rfl)
            (by rw [firstObjection, hjudge, Option.none_or, hpre])
          simpa using this

theorem foldlM_flatMap {β : Type} (f : α → List β) (step : σ → β → Except ε σ) (as : List α)
    (s : σ) : (as.flatMap f).foldlM step s = as.foldlM (fun s a => (f a).foldlM step s) s := by
  induction as generalizing s with
  | nil => rfl
  | cons a as ih => simp [List.foldlM_append, ih]

/-- A loop whose state is a function of the elements so far answers with the first
objection, or with the state after all of them. -/
theorem foldlM_verdict {step : σ → α → Except ε σ} (state : List α → σ)
    (h : ∀ before a, step (state before) a =
      verdict (judge before a) (state (before ++ [a])))
    (before as : List α) :
    as.foldlM step (state before) =
      verdict (firstObjection judge before as) (state (before ++ as)) := by
  induction as generalizing before with
  | nil => simp [firstObjection, pure, Except.pure]
  | cons a as ih =>
      rw [List.foldlM_cons, h, firstObjection]
      cases judge before a with
      | some e => rfl
      | none =>
          rw [verdict_none, Option.none_or, List.append_cons before a as]
          exact ih (before ++ [a])

end OpLint
