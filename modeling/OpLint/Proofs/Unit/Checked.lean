import OpLint.Proofs.Forest.Tree
import OpLint.Unit.Basic

/-!
# What a checked unit can rely on

Once a unit is checked, nothing that an analysis looks up in it is missing: its forest is
linked, a setter has a property that is there, and a body has a method, and a root that
nothing stands above.
-/

namespace OpLint.CompilationUnit

structure Checked (u : CompilationUnit) : Prop where
  linked : u.forest.Linked
  setters : ∀ id m, u.symbols.method? id = some m → m.kind = .propertySet →
    ∃ own property, m.property = some own ∧ u.symbols.property? own = some property
  methods : ∀ b ∈ u.bodies, ∃ m, u.symbols.method? b.method = some m
  roots : ∀ b ∈ u.bodies, ∃ root, b.root.position? = some root ∧ root < u.forest.size ∧
    u.forest.parent? root = none

variable {u : CompilationUnit}

theorem exists_property_of_checkMethod {m : Method} (h : u.checkMethod m = .ok ())
    (hsetter : m.kind = .propertySet) :
    ∃ own property, m.property = some own ∧ u.symbols.property? own = some property := by
  rw [checkMethod] at h
  cases hown : m.property with
  | none =>
      rw [hown] at h
      simp [Method.isSetter, hsetter] at h
  | some own =>
      rw [hown] at h
      simp only at h
      split at h
      · cases h
      · next hknown =>
          have hlt : own.toNat < u.symbols.properties.size := by
            simpa [isUnknownProperty] using hknown
          exact ⟨own, _, rfl, Array.getElem?_eq_getElem hlt⟩

theorem exists_root_of_checkBody {seen : List Ref} {b : Body} (h : u.checkBody seen b = .ok ()) :
    (∃ m, u.symbols.method? b.method = some m) ∧
      ∃ root, b.root.position? = some root ∧ root < u.forest.size ∧
        u.forest.parent? root = none := by
  rw [checkBody] at h
  cases hmethod : u.symbols.method? b.method with
  | none => rw [hmethod] at h; cases h
  | some m =>
      refine ⟨⟨m, rfl⟩, ?_⟩
      rw [hmethod, Forest.get?] at h
      cases hroot : b.root.position? with
      | none => rw [hroot] at h; cases h
      | some root =>
          rw [hroot] at h
          cases hnode : u.forest.node? root with
          | none =>
              have hget : (some root >>= u.forest.node?) = none := hnode
              rw [hget] at h
              cases h
          | some node =>
              have hget : (some root >>= u.forest.node?) = some node := hnode
              rw [hget] at h
              simp only at h
              split at h
              · cases h
              · next hparent =>
                  refine ⟨root, rfl, (Array.getElem?_eq_some_iff.1 hnode).1, ?_⟩
                  rw [Forest.parent?, hnode]
                  simpa using hparent

theorem checkBody_of_mem {seen : List Ref} {bodies : List Body}
    (h : u.checkBodies seen bodies = .ok ()) {b : Body} (hb : b ∈ bodies) :
    ∃ seen, u.checkBody seen b = .ok () := by
  induction bodies generalizing seen with
  | nil => cases hb
  | cons c bodies ih =>
      obtain ⟨⟨⟩, hc, hbodies⟩ := bind_eq_ok_iff.1 h
      rcases List.mem_cons.1 hb with rfl | hb
      · exact ⟨seen, hc⟩
      · exact ih hbodies hb

theorem root_not_mem_of_checkBody {seen : List Ref} {b : Body}
    (h : u.checkBody seen b = .ok ()) : b.root ∉ seen := by
  intro hseen
  rw [checkBody] at h
  split at h
  · cases h
  · cases h
  · split at h <;> cases h

/-- Bodies that pass one after the other have roots of their own. -/
theorem nodup_roots_of_checkBodies {seen : List Ref} {bodies : List Body}
    (h : u.checkBodies seen bodies = .ok ()) :
    (bodies.map Body.root).Nodup ∧ ∀ b ∈ bodies, b.root ∉ seen := by
  induction bodies generalizing seen with
  | nil => exact ⟨List.nodup_nil, fun b hb => by cases hb⟩
  | cons b bodies ih =>
      obtain ⟨⟨⟩, hb, hbodies⟩ := bind_eq_ok_iff.1 h
      obtain ⟨hnodup, hfresh⟩ := ih hbodies
      refine ⟨List.nodup_cons.2 ⟨fun hroot => ?_, hnodup⟩, fun c hc => ?_⟩
      · obtain ⟨c, hc, heq⟩ := List.mem_map.1 hroot
        exact hfresh c hc (heq ▸ List.mem_cons_self)
      · rcases List.mem_cons.1 hc with rfl | hc
        · exact root_not_mem_of_checkBody hb
        · exact fun hseen => hfresh c hc (List.mem_cons_of_mem b.root hseen)

theorem nodup_roots_of_check (h : u.check = .ok ()) : (u.bodies.map Body.root).Nodup := by
  obtain ⟨⟨⟩, -, h⟩ := bind_eq_ok_iff.1 h
  obtain ⟨⟨⟩, -, h⟩ := bind_eq_ok_iff.1 h
  obtain ⟨⟨⟩, -, hbodies⟩ := bind_eq_ok_iff.1 h
  exact (nodup_roots_of_checkBodies hbodies).1

theorem checked_of_check (h : u.check = .ok ()) : u.Checked := by
  obtain ⟨⟨⟩, hforest, h⟩ := bind_eq_ok_iff.1 h
  obtain ⟨⟨⟩, hmethods, h⟩ := bind_eq_ok_iff.1 h
  obtain ⟨⟨⟩, -, hbodies⟩ := bind_eq_ok_iff.1 h
  exact
    { linked := Forest.check_eq_ok_iff.1 hforest
      setters := fun id m hm => exists_property_of_checkMethod <|
        forM_eq_ok_iff.1 hmethods m (Array.mem_toList_iff.2 (Array.mem_of_getElem? hm))
      methods := fun b hb => by
        obtain ⟨seen, hcheck⟩ := checkBody_of_mem hbodies hb
        exact (exists_root_of_checkBody hcheck).1
      roots := fun b hb => by
        obtain ⟨seen, hcheck⟩ := checkBody_of_mem hbodies hb
        exact (exists_root_of_checkBody hcheck).2 }

end OpLint.CompilationUnit
