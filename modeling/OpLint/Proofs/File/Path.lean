import OpLint.File.Path

/-!
# The order of paths

Components are ordered by their kind and their text, paths by their components, the first
difference deciding. Both orders are linear, if paths that are written differently but have the
same components are not told apart.

A name has an extension if it ends in a dot and that extension, and there is something in front
of the dot.
-/

namespace OpLint

namespace Component

theorem order_eq_compareLex : order = compareLex (compareOn rank) (compareOn text) := rfl

instance : Std.TransCmp order := by
  rw [order_eq_compareLex]
  infer_instance

instance : Std.LawfulEqCmp order where
  eq_of_compare {a b} h := by
    obtain ⟨hrank, htext⟩ := Ordering.then_eq_eq.1 h
    rw [Std.LawfulEqCmp.compare_eq_iff_eq] at hrank htext
    cases a <;> cases b <;> first | rfl | exact congrArg name htext | cases hrank

end Component

namespace Path

variable {p q r : Path}

theorem orderComponents_eq_compareLex : orderComponents = List.compareLex Component.order := by
  funext as bs
  induction as generalizing bs with
  | nil => cases bs <;> rfl
  | cons a as ih =>
      cases bs with
      | nil => rfl
      | cons b bs =>
          rw [orderComponents, List.compareLex_cons_cons, ih]

instance : Std.TransCmp orderComponents := by
  rw [orderComponents_eq_compareLex]
  infer_instance

instance : Std.LawfulEqCmp orderComponents := by
  rw [orderComponents_eq_compareLex]
  infer_instance

theorem order_eq_eq_iff : p.order q = .eq ↔ p.components = q.components := by
  rw [order]
  exact Std.LawfulEqCmp.compare_eq_iff_eq

theorem same_iff : p.same q ↔ p.components = q.components :=
  decide_eq_true_iff

theorem order_eq_lt_of_isLE (h : (p.order q).isLE) (hne : p.components ≠ q.components) :
    p.order q = .lt :=
  (Ordering.isLE_iff_eq_lt_or_eq_eq.1 h).resolve_right (mt order_eq_eq_iff.1 hne)

theorem order_lt_of_lt_of_isLE (hpq : p.order q = .lt) (hqr : (q.order r).isLE) :
    p.order r = .lt := by
  rw [order] at *
  exact Std.TransCmp.lt_of_lt_of_isLE hpq hqr

theorem join_of_isAbsolute (h : q.isAbsolute) : p.join q = q := by
  rw [join, if_pos (by rw [h, Bool.true_or])]

/-! ## Extensions -/

theorem intercalate_append_singleton (c : Char) {parts : List (List Char)} (h : parts ≠ [])
    (last : List Char) :
    [c].intercalate (parts ++ [last]) = [c].intercalate parts ++ c :: last := by
  induction parts with
  | nil => exact absurd rfl h
  | cons part parts ih =>
      cases parts with
      | nil => simp
      | cons next parts =>
          have hnext : next :: parts ≠ [] := List.cons_ne_nil next parts
          rw [List.cons_append,
            List.intercalate_cons_of_ne_nil (List.append_ne_nil_of_left_ne_nil hnext _), ih hnext,
            List.intercalate_cons_of_ne_nil hnext]
          simp only [List.append_assoc]

theorem splitExtension_eq_some_iff {name stem ext : String} (hext : '.' ∉ ext.toList) :
    splitExtension name = some (stem, ext) ↔ stem ≠ "" ∧ name = stem ++ "." ++ ext := by
  have hname : name = stem ++ "." ++ ext ↔ name.toList = stem.toList ++ '.' :: ext.toList := by
    rw [← String.toList_inj]
    simp [String.toList_append]
  rw [hname]
  constructor
  · intro h
    rw [splitExtension] at h
    split at h
    · next extension part before hsplit =>
        have hparts : name.toList.splitOn '.' = (part :: before).reverse ++ [extension] := by
          rw [← List.reverse_reverse (name.toList.splitOn '.'), hsplit, List.reverse_cons]
        have hlist : name.toList =
            ['.'].intercalate (part :: before).reverse ++ '.' :: extension := by
          rw [← intercalate_append_singleton _ (by simp), ← hparts, List.intercalate_splitOn]
        simp only [] at h
        split at h
        · cases h
        · next hstem =>
            obtain ⟨rfl, rfl⟩ := Prod.mk.inj (Option.some.inj h)
            rw [String.toList_ofList, String.toList_ofList]
            refine ⟨fun hempty => hstem ?_, hlist⟩
            rw [← String.toList_ofList (l := ['.'].intercalate _), hempty]
            rfl
    · cases h
  · rintro ⟨hstem, hlist⟩
    have hsplit : (name.toList.splitOn '.').reverse =
        ext.toList :: (stem.toList.splitOn '.').reverse := by
      rw [hlist, List.splitOn_append_cons_self, List.splitOn_eq_singleton hext,
        List.reverse_append]
      rfl
    rw [splitExtension, hsplit]
    cases hparts : (stem.toList.splitOn '.').reverse with
    | nil => exact absurd (List.reverse_eq_nil_iff.1 hparts) (List.splitOn_ne_nil _ _)
    | cons part before =>
        have hback : ['.'].intercalate (part :: before).reverse = stem.toList := by
          rw [← hparts, List.reverse_reverse, List.intercalate_splitOn]
        have hne : ¬ stem.toList.isEmpty := by
          rw [List.isEmpty_iff, String.toList_eq_nil_iff]
          exact hstem
        simp only [hback, if_neg hne, String.ofList_toList]

theorem extension?_eq_some_iff {name ext : String} (hext : '.' ∉ ext.toList) :
    extension? name = some ext ↔ ∃ stem, stem ≠ "" ∧ name = stem ++ "." ++ ext := by
  rw [extension?, Option.map_eq_some_iff]
  constructor
  · rintro ⟨⟨stem, _⟩, h, rfl⟩
    exact ⟨stem, (splitExtension_eq_some_iff hext).1 h⟩
  · rintro ⟨stem, h⟩
    exact ⟨(stem, ext), (splitExtension_eq_some_iff hext).2 h, rfl⟩

end Path

end OpLint
