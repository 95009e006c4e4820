import Mathlib.Data.List.Induction
import OpLint.Proofs.Analysis.Calls
import OpLint.Proofs.Ascending

/-!
# A sink puts commits in order

A sink is filled by commits, under keys that come in any order and any number of times. What
one key got is read off the list of commits, by leaving out those to other keys. The entries of
a sink are such a list as well, with ascending keys and one commit to each; so a sink can be
compared with the commits that filled it without a notion of its own. `Sink.Holds` says that
for each key both have got the same, and each commit keeps that.

From there on the order of the commits is only seen within a key. And as no key has two entries,
there is only one way to arrange the entries by their keys: neither the order in which they are
listed nor the way of sorting them matters.
-/

namespace OpLint

/-! ## The order of keys -/

theorem BodyKey.order_eq_compareLex :
    order = compareLex (compareOn BodyKey.unit) (compareOn BodyKey.body) := rfl

instance : Std.TransCmp BodyKey.order := by
  rw [BodyKey.order_eq_compareLex]
  infer_instance

instance : Std.LawfulEqCmp BodyKey.order where
  eq_of_compare := BodyKey.order_eq_eq_iff.1

namespace Sink

variable {α : Type} {entries commits : List (BodyKey × List α)} {key : BodyKey} {items : List α}
  {s : Sink α}

/-- What has been committed to a key, in the order of the commits. -/
def committed (commits : List (BodyKey × List α)) (key : BodyKey) : List α :=
  (commits.filter (·.1 = key)).flatMap Prod.snd

/-- The sink that commits fill. -/
def ofCommits (commits : List (BodyKey × List α)) : Sink α :=
  commits.foldl (fun s c => s.commit c.1 c.2) empty

theorem committed_cons (c : BodyKey × List α) (commits : List (BodyKey × List α)) (key : BodyKey) :
    committed (c :: commits) key = (if c.1 = key then c.2 else []) ++ committed commits key := by
  rw [committed, List.filter_cons]
  by_cases hkey : c.1 = key <;> simp [hkey, committed]

theorem committed_append (commits more : List (BodyKey × List α)) (key : BodyKey) :
    committed (commits ++ more) key = committed commits key ++ committed more key := by
  rw [committed, List.filter_append, List.flatMap_append, committed, committed]

/-! ## Entries with ascending keys -/

/-- Each key comes before those of the entries after it. -/
def Ascending (entries : List (BodyKey × List α)) : Prop :=
  entries.Pairwise fun e f => e.1.order f.1 = .lt

/-- A key in front of the first one is in front of all. -/
theorem Ascending.cons_of_lt {e : BodyKey × List α} (h : Ascending (e :: entries))
    (hlt : key.order e.1 = .lt) (items : List α) : Ascending ((key, items) :: e :: entries) := by
  refine List.pairwise_cons.2 ⟨fun f hf => ?_, h⟩
  rcases List.mem_cons.1 hf with rfl | hf
  · exact hlt
  · exact BodyKey.order_trans hlt ((List.pairwise_cons.1 h).1 f hf)

theorem Ascending.ne_of_mem {e f : BodyKey × List α} (h : Ascending (e :: entries))
    (hf : f ∈ entries) : f.1 ≠ e.1 :=
  (BodyKey.ne_of_order_eq_gt (BodyKey.order_eq_gt_iff.2 ((List.pairwise_cons.1 h).1 f hf))).symm

/-- Only the first entry holds what was committed to its key. -/
theorem Ascending.committed_eq_nil {e : BodyKey × List α} (h : Ascending (e :: entries)) :
    committed entries e.1 = [] := by
  rw [committed, List.filter_eq_nil_iff.2 fun f hf => by simp [h.ne_of_mem hf], List.flatMap_nil]

theorem Ascending.committed_eq (h : Ascending entries) {e : BodyKey × List α} (he : e ∈ entries) :
    committed entries e.1 = e.2 := by
  induction entries with
  | nil => cases he
  | cons f entries ih =>
      rw [committed_cons]
      rcases List.mem_cons.1 he with rfl | he
      · rw [if_pos rfl, h.committed_eq_nil, List.append_nil]
      · rw [if_neg (h.ne_of_mem he).symm, List.nil_append, ih (List.pairwise_cons.1 h).2 he]

theorem mem_insert {e : BodyKey × List α} (h : e ∈ insert key items entries) :
    e.1 = key ∨ e ∈ entries := by
  induction entries with
  | nil =>
      rw [List.mem_singleton.1 h]
      exact Or.inl rfl
  | cons f entries ih =>
      obtain ⟨k, old⟩ := f
      rw [insert] at h
      split at h
      · rcases List.mem_cons.1 h with rfl | h
        · exact Or.inl rfl
        · exact Or.inr h
      · next heq =>
          rcases List.mem_cons.1 h with rfl | h
          · exact Or.inl (BodyKey.order_eq_eq_iff.1 heq).symm
          · exact Or.inr (List.mem_cons_of_mem _ h)
      · rcases List.mem_cons.1 h with rfl | h
        · exact Or.inr List.mem_cons_self
        · exact (ih h).imp_right (List.mem_cons_of_mem _)

theorem Ascending.insert (h : Ascending entries) (key : BodyKey) (items : List α) :
    Ascending (Sink.insert key items entries) := by
  induction entries with
  | nil => exact List.pairwise_singleton _ _
  | cons f entries ih =>
      obtain ⟨k, old⟩ := f
      obtain ⟨hfirst, hrest⟩ := List.pairwise_cons.1 h
      rw [Sink.insert]
      split
      · next hlt => exact h.cons_of_lt hlt items
      · exact List.pairwise_cons.2 ⟨hfirst, hrest⟩
      · next hgt =>
          refine List.pairwise_cons.2 ⟨fun e he => ?_, ih hrest⟩
          rcases mem_insert he with hkey | he
          · rw [hkey]
            exact BodyKey.order_eq_gt_iff.1 hgt
          · exact hfirst e he

theorem Ascending.committed_insert (h : Ascending entries) (key : BodyKey) (items : List α)
    (k : BodyKey) :
    committed (Sink.insert key items entries) k =
      committed entries k ++ if key = k then items else [] := by
  induction entries with
  | nil =>
      rw [Sink.insert, committed_cons]
      exact List.append_nil _
  | cons f entries ih =>
      obtain ⟨l, old⟩ := f
      rw [Sink.insert]
      split
      · next hlt =>
          rw [committed_cons (key, items)]
          split
          · next hkey =>
              rw [← hkey, (h.cons_of_lt hlt items).committed_eq_nil]
              exact List.append_nil _
          · exact (List.append_nil _).symm
      · next heq =>
          obtain rfl := BodyKey.order_eq_eq_iff.1 heq
          rw [committed_cons, committed_cons]
          split
          · next hkey =>
              rw [← hkey, h.committed_eq_nil, List.append_nil, List.append_nil]
          · exact (List.append_nil _).symm
      · rw [committed_cons, committed_cons, ih (List.pairwise_cons.1 h).2, List.append_assoc]

/-- Entries are read off key by key. -/
theorem Ascending.flatMap_committed (h : Ascending entries) {keys : List BodyKey}
    (hkeys : keys.Pairwise fun k l => k.order l = .lt) (hmem : ∀ e ∈ entries, e.1 ∈ keys) :
    keys.flatMap (committed entries) = entries.flatMap Prod.snd := by
  have hown : keys.filter (· ∈ entries.map Prod.fst) = entries.map Prod.fst := by
    refine eq_of_mem_iff_of_pairwise_lt (hkeys.filter _) (List.pairwise_map.2 h) fun k => ?_
    rw [List.mem_filter, decide_eq_true_eq, and_iff_right_iff_imp]
    intro hk
    obtain ⟨e, he, rfl⟩ := List.mem_map.1 hk
    exact hmem e he
  have hothers : ∀ k ∈ keys, committed entries k =
      if decide (k ∈ entries.map Prod.fst) then committed entries k else [] := by
    intro k _
    split
    · rfl
    · next hk =>
        rw [decide_eq_true_eq] at hk
        rw [committed, List.filter_eq_nil_iff.2, List.flatMap_nil]
        intro e he heq
        exact hk (List.mem_map.2 ⟨e, he, of_decide_eq_true heq⟩)
  rw [List.flatMap_congr hothers, flatMap_ite_nil, hown, List.flatMap_map]
  exact List.flatMap_congr fun e he => h.committed_eq he

/-- However entries with different keys are listed, there is one way to arrange them. -/
theorem Ascending.eq_of_perm (h : Ascending entries) {arranged : List (BodyKey × List α)}
    (hperm : arranged.Perm entries)
    (hsorted : arranged.Pairwise fun e f => (e.1.order f.1).isLE) : arranged = entries := by
  refine hperm.eq_of_pairwise (fun e f he hf hef hfe => ?_) hsorted
    (h.imp fun hlt => by rw [hlt]; rfl)
  have hkey : e.1 = f.1 := BodyKey.order_eq_eq_iff.1 (Std.OrientedCmp.isLE_antisymm hef hfe)
  refine Prod.ext hkey ?_
  rw [← h.committed_eq (hperm.mem_iff.1 he), ← h.committed_eq hf, hkey]

/-! ## A sink and the commits that filled it -/

/-- For every key the sink holds what has been committed to it, in one entry if that is
anything at all. -/
structure Holds (s : Sink α) (commits : List (BodyKey × List α)) : Prop where
  ascending : Ascending s.entries
  key_mem : ∀ e ∈ s.entries, ∃ c ∈ commits, c.1 = e.1
  committed_eq : ∀ key, committed s.entries key = committed commits key

theorem Holds.commit (h : s.Holds commits) (key : BodyKey) (items : List α) :
    (s.commit key items).Holds (commits ++ [(key, items)]) := by
  have hlast (k : BodyKey) : committed (commits ++ [(key, items)]) k =
      committed commits k ++ if key = k then items else [] := by
    rw [committed_append, committed_cons]
    exact congrArg _ (List.append_nil _)
  rw [Sink.commit]
  split
  · next hempty =>
      refine ⟨h.ascending, fun e he => ?_, fun k => ?_⟩
      · obtain ⟨c, hc, hkey⟩ := h.key_mem e he
        exact ⟨c, List.mem_append_left _ hc, hkey⟩
      · rw [h.committed_eq, hlast, List.isEmpty_iff.1 hempty, ite_self, List.append_nil]
  · refine ⟨h.ascending.insert key items, fun e he => ?_, fun k => ?_⟩
    · rcases mem_insert he with hkey | he
      · exact ⟨(key, items), List.mem_append_right _ (List.mem_singleton_self _), hkey.symm⟩
      · obtain ⟨c, hc, hkey⟩ := h.key_mem e he
        exact ⟨c, List.mem_append_left _ hc, hkey⟩
    · rw [h.ascending.committed_insert, h.committed_eq, hlast]

theorem holds_ofCommits (commits : List (BodyKey × List α)) :
    (ofCommits commits).Holds commits := by
  induction commits using List.reverseRecOn with
  | nil => exact ⟨List.Pairwise.nil, nofun, fun key => rfl⟩
  | append_singleton commits c ih =>
      rw [ofCommits, List.foldl_append]
      exact ih.commit c.1 c.2

/-! ## What comes out -/

theorem size_insert (key : BodyKey) (items : List α) (entries : List (BodyKey × List α)) :
    (Sink.mk (insert key items entries)).size = (Sink.mk entries).size + items.length := by
  induction entries with
  | nil => simp [insert, size]
  | cons e entries ih =>
      obtain ⟨k, old⟩ := e
      simp only [size, List.foldr_cons] at ih ⊢
      rw [insert]
      split
      · simp only [List.foldr_cons]
        omega
      · simp only [List.foldr_cons, List.length_append]
        omega
      · simp only [List.foldr_cons]
        omega

theorem size_commit (s : Sink α) (key : BodyKey) (items : List α) :
    (s.commit key items).size = s.size + items.length := by
  rw [commit]
  split
  · next hempty => rw [List.isEmpty_iff.1 hempty]; rfl
  · exact size_insert key items s.entries

theorem size_ofCommits (commits : List (BodyKey × List α)) :
    (ofCommits commits).size = (commits.map fun c => c.2.length).sum := by
  induction commits using List.reverseRecOn with
  | nil => rfl
  | append_singleton commits c ih =>
      rw [ofCommits, List.foldl_append]
      show ((ofCommits commits).commit c.1 c.2).size = _
      rw [size_commit, ih, List.map_append, List.sum_append]
      rfl

theorem perm_insert (key : BodyKey) (items : List α) (entries : List (BodyKey × List α)) :
    ((insert key items entries).flatMap Prod.snd).Perm (entries.flatMap Prod.snd ++ items) := by
  induction entries with
  | nil => exact .of_eq (List.append_nil _)
  | cons e entries ih =>
      obtain ⟨k, old⟩ := e
      rw [insert]
      split
      · exact List.perm_append_comm
      · rw [List.flatMap_cons, List.flatMap_cons, List.append_assoc, List.append_assoc]
        exact List.perm_append_comm.append_left old
      · rw [List.flatMap_cons, List.flatMap_cons, List.append_assoc]
        exact ih.append_left old

theorem perm_sorted_commit (s : Sink α) (key : BodyKey) (items : List α) :
    (s.commit key items).sorted.Perm (s.sorted ++ items) := by
  rw [commit]
  split
  · next hempty => rw [List.isEmpty_iff.1 hempty, List.append_nil]
  · exact perm_insert key items s.entries

theorem perm_sorted_ofCommits (commits : List (BodyKey × List α)) :
    (ofCommits commits).sorted.Perm (commits.flatMap Prod.snd) := by
  induction commits using List.reverseRecOn with
  | nil => exact .refl _
  | append_singleton commits c ih =>
      rw [ofCommits, List.foldl_append, List.flatMap_append, List.flatMap_singleton]
      exact (perm_sorted_commit _ _ _).trans (ih.append_right c.2)

/-- The items of a sink, by any ascending keys that include those of its commits. -/
theorem sorted_ofCommits_eq {keys : List BodyKey}
    (hkeys : keys.Pairwise fun k l => k.order l = .lt) (hmem : ∀ c ∈ commits, c.1 ∈ keys) :
    (ofCommits commits).sorted = keys.flatMap (committed commits) := by
  obtain ⟨hascending, hkey, hcommitted⟩ := holds_ofCommits commits
  rw [sorted, ← hascending.flatMap_committed hkeys fun e he => ?_, funext hcommitted]
  obtain ⟨c, hc, heq⟩ := hkey e he
  exact heq ▸ hmem c hc

theorem size_eq_sum (s : Sink α) : s.size = (s.entries.map fun e => e.2.length).sum := by
  rw [size, List.sum, List.foldr_map]

/-- A sink gives back what was committed, for the keys in ascending order, and for each of them
in the order of the commits. Its size counts the items so far. It does not matter how the
entries are listed before they are arranged, nor how commits to different keys interleave. -/
theorem sorted_ofCommits (commits : List (BodyKey × List α)) :
    (∀ done, done <+: commits →
      (ofCommits done).size = (done.map fun c => c.2.length).sum ∧
        ((ofCommits done).isEmpty ↔ (done.map fun c => c.2.length).sum = 0)) ∧
    (∃ keys : List BodyKey,
      keys.Pairwise (fun k l => k.unit < l.unit ∨ k.unit = l.unit ∧ k.body < l.body) ∧
        (∀ key, key ∈ keys ↔ ∃ c ∈ commits, c.1 = key) ∧
        (ofCommits commits).sorted = keys.flatMap (committed commits)) ∧
    (ofCommits commits).sorted.Perm (commits.flatMap Prod.snd) ∧
    (∀ listed : List (BodyKey × List α), listed.Perm (ofCommits commits).entries →
      (listed.map fun e => e.2.length).sum = (ofCommits commits).size ∧
        ∀ arranged : List (BodyKey × List α), arranged.Perm listed →
          arranged.Pairwise (fun e f => (e.1.order f.1).isLE) →
            arranged.flatMap Prod.snd = (ofCommits commits).sorted) ∧
    ∀ others : List (BodyKey × List α),
      (∀ key, committed others key = committed commits key) →
        (ofCommits others).sorted = (ofCommits commits).sorted := by
  refine ⟨fun done _ => ⟨size_ofCommits done, ?_⟩, ?_, perm_sorted_ofCommits commits,
    fun listed hlisted => ⟨?_, fun arranged harranged hsorted => ?_⟩, fun others hothers => ?_⟩
  · rw [isEmpty, size_ofCommits, decide_eq_true_eq]
  · obtain ⟨keys, hkeys, hmem⟩ := exists_pairwise_lt BodyKey.order (commits.map Prod.fst)
    refine ⟨keys, hkeys.imp BodyKey.order_eq_lt_iff.1, fun key => ?_,
      sorted_ofCommits_eq hkeys fun c hc => (hmem _).2 (List.mem_map_of_mem hc)⟩
    rw [hmem, List.mem_map]
  · rw [size_eq_sum]
    exact (hlisted.map _).sum_nat
  · rw [(holds_ofCommits commits).ascending.eq_of_perm (harranged.trans hlisted) hsorted]
    rfl
  · obtain ⟨keys, hkeys, hmem⟩ :=
      exists_pairwise_lt BodyKey.order ((others ++ commits).map Prod.fst)
    have hkey : ∀ c ∈ others ++ commits, c.1 ∈ keys := fun c hc =>
      (hmem _).2 (List.mem_map_of_mem hc)
    rw [sorted_ofCommits_eq hkeys fun c hc => hkey c (List.mem_append_left _ hc),
      sorted_ofCommits_eq hkeys fun c hc => hkey c (List.mem_append_right _ hc),
      funext hothers]

/-- Two commits to a key around one to a smaller key; then other commits that agree with these
key by key. -/
theorem sorted_ofCommits_sample :
    let commits : List (BodyKey × List Nat) := [(⟨1, 0⟩, [1]), (⟨0, 1⟩, [2, 3]), (⟨1, 0⟩, [4])]
    let others : List (BodyKey × List Nat) :=
      [(⟨1, 0⟩, [1, 4]), (⟨0, 1⟩, [2]), (⟨1, 0⟩, []), (⟨0, 1⟩, [3])]
    let listed : List (BodyKey × List Nat) := [(⟨1, 0⟩, [1, 4]), (⟨0, 1⟩, [2, 3])]
    (commits.take 2 <+: commits ∧ (ofCommits (commits.take 2)).size = 3) ∧
      (listed.Perm (ofCommits commits).entries ∧ listed.reverse.Perm listed ∧
        listed.reverse.Pairwise (fun e f => (e.1.order f.1).isLE) ∧
        listed.reverse.flatMap Prod.snd = (ofCommits commits).sorted) ∧
      (∀ key, committed others key = committed commits key) ∧
      (ofCommits others).sorted = (ofCommits commits).sorted := by
  intro commits others listed
  obtain ⟨hlength, -, -, hlisted, hothers⟩ := sorted_ofCommits commits
  have hsame (key : BodyKey) : committed others key = committed commits key := by
    simp only [others, commits, committed_cons]
    by_cases hkey : ⟨1, 0⟩ = key
    · subst hkey
      decide
    · simp only [if_neg hkey]
      split <;> rfl
  have hperm : listed.Perm (ofCommits commits).entries := by decide
  have hsorted : listed.reverse.Pairwise fun e f => (e.1.order f.1).isLE := by decide
  exact ⟨⟨List.take_prefix 2 commits, (hlength _ (List.take_prefix 2 commits)).1⟩,
    ⟨hperm, listed.reverse_perm, hsorted,
      (hlisted listed hperm).2 _ listed.reverse_perm hsorted⟩,
    hsame, hothers others hsame⟩

end Sink

end OpLint
