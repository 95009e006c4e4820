import Mathlib.Algebra.BigOperators.Group.List.Basic
import Mathlib.Algebra.GroupWithZero.Nat
import Mathlib.Data.List.Nodup
import Mathlib.Data.List.Perm.Basic
import OpLint.Analysis.Run

/-!
# What a run finds

A run keeps a sink and counters, but what it finds can be said without them. If no callback
asks for the analysis to be cancelled, every body is visited, the diagnostics are those
of the bodies one after the other, and the counters are sums over the bodies.

Two things carry this. A visit adds what its body gives to the sink, the counters and the
log, and nothing else. And the bodies come in the order of their keys, so that what is
committed last stands last.
-/

namespace OpLint

/-! ## The order of the sink -/

theorem BodyKey.order_eq_lt_iff {a b : BodyKey} :
    a.order b = .lt ↔ a.unit < b.unit ∨ a.unit = b.unit ∧ a.body < b.body := by
  rw [BodyKey.order, Ordering.then_eq_lt]
  simp only [Nat.compare_eq_lt, Nat.compare_eq_eq]

theorem BodyKey.order_eq_eq_iff {a b : BodyKey} : a.order b = .eq ↔ a = b := by
  obtain ⟨u, i⟩ := a
  obtain ⟨v, j⟩ := b
  rw [BodyKey.order, Ordering.then_eq_eq]
  simp only [Nat.compare_eq_eq, BodyKey.mk.injEq]

theorem BodyKey.order_eq_gt_iff {a b : BodyKey} : a.order b = .gt ↔ b.order a = .lt := by
  rw [BodyKey.order_eq_lt_iff, BodyKey.order, Ordering.then_eq_gt]
  simp only [Nat.compare_eq_gt, Nat.compare_eq_eq]
  omega

theorem BodyKey.order_trans {a b c : BodyKey} (hab : a.order b = .lt) (hbc : b.order c = .lt) :
    a.order c = .lt := by
  rw [order_eq_lt_iff] at *
  omega

theorem BodyKey.ne_of_order_eq_gt {a b : BodyKey} (h : a.order b = .gt) : b ≠ a := by
  rintro rfl
  rw [order_eq_eq_iff.2 rfl] at h
  cases h

/-- Where the keys ascend, no key comes twice. -/
theorem BodyKey.nodup_of_pairwise {β : Type} {key : β → BodyKey} {bs : List β}
    (h : bs.Pairwise fun b c => (key c).order (key b) = .gt) : (bs.map key).Nodup :=
  List.pairwise_map.2 (h.imp ne_of_order_eq_gt)

namespace Sink

variable {α β : Type} {entries : List (BodyKey × List α)}

theorem insert_comm_of_lt {k l : BodyKey} (hkl : k.order l = .lt) (items more : List α)
    (entries : List (BodyKey × List α)) :
    insert l more (insert k items entries) = insert k items (insert l more entries) := by
  have hlk : l.order k = .gt := BodyKey.order_eq_gt_iff.2 hkl
  induction entries with
  | nil => simp only [insert, hkl, hlk]
  | cons e entries ih =>
      obtain ⟨e, old⟩ := e
      cases hke : k.order e with
      | lt => cases hle : l.order e <;> simp only [insert, hke, hle, hkl, hlk]
      | eq =>
          obtain rfl := BodyKey.order_eq_eq_iff.1 hke
          simp only [insert, hke, hlk]
      | gt =>
          have hle : l.order e = .gt :=
            BodyKey.order_eq_gt_iff.2 (BodyKey.order_trans (BodyKey.order_eq_gt_iff.1 hke) hkl)
          simp only [insert, hke, hle, ih]

theorem insert_comm {k l : BodyKey} (hne : k ≠ l) (items more : List α)
    (entries : List (BodyKey × List α)) :
    insert l more (insert k items entries) = insert k items (insert l more entries) := by
  cases h : k.order l with
  | lt => exact insert_comm_of_lt h items more entries
  | eq => exact absurd (BodyKey.order_eq_eq_iff.1 h) hne
  | gt => exact (insert_comm_of_lt (BodyKey.order_eq_gt_iff.1 h) more items entries).symm

/-- Commits to different keys may change places. -/
theorem commit_comm {k l : BodyKey} (hne : k ≠ l) (items more : List α) (s : Sink α) :
    (s.commit k items).commit l more = (s.commit l more).commit k items := by
  simp only [commit]
  split <;> split <;> simp only [insert_comm hne]

theorem insert_last {key : BodyKey} {items : List α} (h : ∀ e ∈ entries, key.order e.1 = .gt) :
    insert key items entries = entries ++ [(key, items)] := by
  induction entries with
  | nil => rfl
  | cons e entries ih =>
      obtain ⟨k, old⟩ := e
      rw [insert, h (k, old) List.mem_cons_self]
      show (k, old) :: insert key items entries = _
      rw [ih fun e he => h e (List.mem_cons_of_mem _ he)]
      rfl

theorem commit_last {s : Sink α} {key : BodyKey} (items : List α)
    (h : ∀ e ∈ s.entries, key.order e.1 = .gt) :
    (s.commit key items).sorted = s.sorted ++ items ∧
      ∀ e ∈ (s.commit key items).entries, e ∈ s.entries ∨ e.1 = key := by
  rw [commit]
  split
  · next hempty =>
      rw [List.isEmpty_iff.1 hempty, List.append_nil]
      exact ⟨rfl, fun e he => Or.inl he⟩
  · rw [insert_last h]
    constructor
    · simp [sorted]
    · intro e he
      rcases List.mem_append.1 he with he | he
      · exact Or.inl he
      · rw [List.mem_singleton.1 he]
        exact Or.inr rfl

/-- What is committed in the order of the keys is found in that order. -/
theorem sorted_foldl_commit (key : β → BodyKey) (items : β → List α) {bs : List β} {s : Sink α}
    (hbs : bs.Pairwise fun b c => (key c).order (key b) = .gt)
    (hs : ∀ b ∈ bs, ∀ e ∈ s.entries, (key b).order e.1 = .gt) :
    (bs.foldl (fun s b => s.commit (key b) (items b)) s).sorted = s.sorted ++ bs.flatMap items := by
  induction bs generalizing s with
  | nil => simp
  | cons b bs ih =>
      obtain ⟨hb, hbs⟩ := List.pairwise_cons.1 hbs
      obtain ⟨hsorted, hentries⟩ := commit_last (items b) (hs b List.mem_cons_self)
      rw [List.foldl_cons, ih hbs, hsorted, List.flatMap_cons, List.append_assoc]
      intro c hc e he
      rcases hentries e he with he | he
      · exact hs c (List.mem_cons_of_mem b hc) e he
      · rw [he]
        exact hb c hc

/-- What is committed is found in the order of the keys, whatever the order of the commits. -/
theorem sorted_foldl_commit_perm (key : β → BodyKey) (items : β → List α) {bs cs : List β}
    (h : bs.Perm cs) (hcs : cs.Pairwise fun b c => (key c).order (key b) = .gt) :
    (bs.foldl (fun s b => s.commit (key b) (items b)) empty).sorted = cs.flatMap items := by
  have hcomm : ∀ b ∈ bs, ∀ c ∈ bs, ∀ s : Sink α,
      (s.commit (key b) (items b)).commit (key c) (items c) =
        (s.commit (key c) (items c)).commit (key b) (items b) := by
    intro b hb c hc s
    by_cases heq : key b = key c
    · rw [List.inj_on_of_nodup_map (BodyKey.nodup_of_pairwise hcs) (h.mem_iff.1 hb)
        (h.mem_iff.1 hc) heq]
    · exact commit_comm heq _ _ s
  rw [h.foldl_eq' hcomm]
  exact sorted_foldl_commit key items hcs (by simp [empty])

end Sink

/-! ## The order of the bodies -/

theorem pairwise_zipIdx {α : Type} (as : List α) :
    as.zipIdx.Pairwise fun p q => p.2 < q.2 := by
  have hplaces := List.pairwise_lt_range' (s := 0) (n := as.length)
  rw [← List.zipIdx_map_snd 0 as] at hplaces
  exact List.pairwise_map.1 hplaces

theorem pairwise_workItems (units : List CompilationUnit) :
    (workItems units).Pairwise fun v w => w.key.order v.key = .gt := by
  refine List.pairwise_flatMap.2 ⟨fun p _ => ?_, (pairwise_zipIdx units).imp ?_⟩
  · refine List.pairwise_map.2 ((pairwise_zipIdx p.1.bodies).imp fun {v w} h => ?_)
    exact BodyKey.order_eq_gt_iff.2 (BodyKey.order_eq_lt_iff.2 (Or.inr ⟨rfl, h⟩))
  · intro p q hpq v hv w hw
    obtain ⟨_, -, rfl⟩ := List.mem_map.1 hv
    obtain ⟨_, -, rfl⟩ := List.mem_map.1 hw
    exact BodyKey.order_eq_gt_iff.2 (BodyKey.order_eq_lt_iff.2 (Or.inl hpq))

/-- Bodies of one key are the same body. -/
theorem eq_of_key_eq {units : List CompilationUnit} {v w : WorkItem} (hv : v ∈ workItems units)
    (hw : w ∈ workItems units) (heq : v.key = w.key) : v = w :=
  List.inj_on_of_nodup_map (BodyKey.nodup_of_pairwise (pairwise_workItems units)) hv hw heq

/-- The bodies of all units, each with its unit. -/
def bodiesOf (units : List CompilationUnit) : List (CompilationUnit × Body) :=
  units.flatMap fun u => u.bodies.map (u, ·)

theorem mem_bodiesOf {units : List CompilationUnit} {u : CompilationUnit} {b : Body} :
    (u, b) ∈ bodiesOf units ↔ u ∈ units ∧ b ∈ u.bodies := by
  simp only [bodiesOf, List.mem_flatMap, List.mem_map, Prod.mk.injEq]
  constructor
  · rintro ⟨_, hu, _, hb, rfl, rfl⟩
    exact ⟨hu, hb⟩
  · rintro ⟨hu, hb⟩
    exact ⟨u, hu, b, hb, rfl, rfl⟩

/-- Without their places the work items are the bodies of the units, in order. -/
theorem map_workItems (units : List CompilationUnit) :
    ((workItems units).map fun w => (w.unit, w.body)) = bodiesOf units := by
  have hunit (u : CompilationUnit) (place : Nat) :
      ((u.workItems place).map fun w => (w.unit, w.body)) = u.bodies.map (u, ·) := by
    rw [CompilationUnit.workItems, List.map_map]
    show (u.bodies.zipIdx.map ((u, ·) ∘ Prod.fst)) = _
    rw [← List.map_map, List.zipIdx_map_fst]
  rw [workItems, List.map_flatMap]
  simp only [hunit]
  rw [← List.flatMap_map Prod.fst fun u : CompilationUnit => u.bodies.map (u, ·),
    List.zipIdx_map_fst, bodiesOf]

/-! ## What a visit adds -/

/-- What a body adds to a run that is not to stop. -/
def Analyzer.harvestBody (a : Analyzer) (u : CompilationUnit) (b : Body) : Harvest Finding :=
  match u.symbols.method? b.method with
  | none => .none
  | some method =>
    if u.generated && !a.rules.any (·.analyzes u) then .none
    else a.analyzeBody ⟨u, b, method⟩

/-- Whether a run that is not to stop leaves a body out. -/
def Analyzer.skips (a : Analyzer) (u : CompilationUnit) (b : Body) : Bool :=
  (u.symbols.method? b.method).isNone || u.generated && !a.rules.any (·.analyzes u)

/-- What a run logs about a body before any callback runs for it. -/
def Analyzer.opening (a : Analyzer) (u : CompilationUnit) (b : Body) : List Event :=
  match u.symbols.method? b.method with
  | none => []
  | some method =>
    .bodyOpened u.file method.name ::
      if u.generated && !a.rules.any (·.analyzes u) then [.generatedSkipped] else []

namespace Run

variable {a : Analyzer} {run : Run}

/-- All that a visit does to a run. -/
theorem visit_eq (h : run.stopping = false) (w : WorkItem) :
    run.visit a w =
      { stopping := (a.harvestBody w.unit w.body).effects.cancels
        sink := run.sink.commit w.key (a.harvestBody w.unit w.body).items
        analyzed := run.analyzed + if a.skips w.unit w.body then 0 else 1
        skipped := run.skipped + if a.skips w.unit w.body then 1 else 0
        faults := run.faults + (a.harvestBody w.unit w.body).effects.faults
        cancelled := run.cancelled
        events := run.events ++
          (a.opening w.unit w.body ++ (a.harvestBody w.unit w.body).effects.events) } := by
  obtain ⟨stopping, sink, analyzed, skipped, faults, cancelled, events⟩ := run
  obtain rfl : stopping = false := h
  cases hmethod : w.unit.symbols.method? w.body.method with
  | none =>
      simp [visit, Analyzer.harvestBody, Analyzer.opening, Analyzer.skips, hmethod, skip,
        Harvest.none, Effects.none, Sink.commit]
  | some method =>
      cases hskip : w.unit.generated && !a.rules.any (·.analyzes w.unit) with
      | true =>
          simp [visit, Analyzer.harvestBody, Analyzer.opening, Analyzer.skips, hmethod, hskip,
            skip, log, Harvest.none, Effects.none, Sink.commit]
      | false =>
          simp [visit, Analyzer.harvestBody, Analyzer.opening, Analyzer.skips, hmethod, hskip,
            log, absorb]

theorem stopping_foldl_visit (work : List WorkItem) :
    (work.foldl (visit a) run).stopping =
      (run.stopping || work.any fun w => (a.harvestBody w.unit w.body).effects.cancels) := by
  induction work generalizing run with
  | nil => exact (Bool.or_false _).symm
  | cons w work ih =>
      rw [List.foldl_cons, ih, List.any_cons]
      cases h : run.stopping with
      | true =>
          have hstopping : (run.visit a w).stopping = true := by rw [visit, h]; exact h
          rw [hstopping]
          rfl
      | false =>
          rw [visit_eq h, Bool.false_or]

/-- All that visits do to a run, if nothing asks for cancellation. -/
theorem foldl_visit {work : List WorkItem} (h : run.stopping = false)
    (hwork : ∀ w ∈ work, (a.harvestBody w.unit w.body).effects.cancels = false) :
    work.foldl (visit a) run =
      { stopping := false
        sink := work.foldl
          (fun s w => s.commit w.key (a.harvestBody w.unit w.body).items) run.sink
        analyzed := run.analyzed + (work.map fun w => if a.skips w.unit w.body then 0 else 1).sum
        skipped := run.skipped + (work.map fun w => if a.skips w.unit w.body then 1 else 0).sum
        faults := run.faults +
          (work.map fun w => (a.harvestBody w.unit w.body).effects.faults).sum
        cancelled := run.cancelled
        events := run.events ++ work.flatMap fun w =>
          a.opening w.unit w.body ++ (a.harvestBody w.unit w.body).effects.events } := by
  induction work generalizing run with
  | nil => 
    obtain ⟨stopping, sink, analyzed, skipped, faults, cancelled, events⟩ := run
    obtain rfl : stopping = false := h
    simp
  | cons w work ih =>
      have hw := hwork w List.mem_cons_self
      rw [List.foldl_cons, visit_eq h, ih hw fun v hv => hwork v (List.mem_cons_of_mem w hv)]
      have hevents (log : Array Event) (more rest : List Event) :
          log ++ more ++ rest = log ++ (more ++ rest) := Array.ext' (by simp)
      simp [hevents, Nat.add_assoc]

end Run

namespace Analyzer

variable (a : Analyzer) {units : List CompilationUnit} {work : List WorkItem}

/-- At the end of a run nobody has asked for cancellation, if no body's callbacks do. -/
theorem stopping_run_eq_false_iff :
    (a.run false units).stopping = false ↔
      ∀ p ∈ bodiesOf units, (a.harvestBody p.1 p.2).effects.cancels = false := by
  rw [run, runOver, Run.stopping_foldl_visit, ← map_workItems, List.forall_mem_map]
  show (false || _) = false ↔ _
  rw [Bool.false_or, List.any_eq_false]
  simp only [Bool.not_eq_true]

/-- All that a run comes to, if nothing asks for cancellation. It does not matter in which
order the bodies are taken. -/
theorem runOver_eq (hwork : work.Perm (workItems units))
    (h : ∀ p ∈ bodiesOf units, (a.harvestBody p.1 p.2).effects.cancels = false) :
    (a.runOver false work).sink.sorted =
        ((bodiesOf units).flatMap fun p => (a.harvestBody p.1 p.2).items) ∧
      (a.runOver false work).analyzed =
        ((bodiesOf units).map fun p => if a.skips p.1 p.2 then 0 else 1).sum ∧
      (a.runOver false work).skipped =
        ((bodiesOf units).map fun p => if a.skips p.1 p.2 then 1 else 0).sum ∧
      (a.runOver false work).faults =
        ((bodiesOf units).map fun p => (a.harvestBody p.1 p.2).effects.faults).sum ∧
      (a.runOver false work).cancelled = false := by
  have hcancels : ∀ w ∈ workItems units,
      (a.harvestBody w.unit w.body).effects.cancels = false := by
    rw [← map_workItems, List.forall_mem_map] at h
    exact h
  rw [runOver, Run.foldl_visit rfl fun w hw => hcancels w (hwork.mem_iff.1 hw), ← map_workItems]
  refine ⟨?_, ?_, ?_, ?_, rfl⟩
  · show (work.foldl _ Sink.empty).sorted = _
    rw [List.flatMap_map]
    exact Sink.sorted_foldl_commit_perm WorkItem.key _ hwork (pairwise_workItems units)
  all_goals
    show 0 + _ = _
    rw [Nat.zero_add, List.map_map]
    exact (hwork.map _).sum_nat

/-- The outcome of a run, if nothing asks for cancellation. -/
theorem outcome_runOver (hwork : work.Perm (workItems units))
    (h : ∀ p ∈ bodiesOf units, (a.harvestBody p.1 p.2).effects.cancels = false) :
    (a.runOver false work).outcome a =
      { diagnostics := (bodiesOf units).flatMap fun p =>
          (a.harvestBody p.1 p.2).items.map Finding.diagnostic
        analyzed := ((bodiesOf units).map fun p => if a.skips p.1 p.2 then 0 else 1).sum
        skipped := ((bodiesOf units).map fun p => if a.skips p.1 p.2 then 1 else 0).sum
        faults := ((bodiesOf units).map fun p => (a.harvestBody p.1 p.2).effects.faults).sum +
          a.registrationFaults
        cancelled := false } := by
  obtain ⟨hsorted, hanalyzed, hskipped, hfaults, hcancelled⟩ := a.runOver_eq hwork h
  rw [Run.outcome, hsorted, hanalyzed, hskipped, hfaults, hcancelled, List.map_flatMap]

/-- What a run logs, if nothing asks for cancellation. -/
theorem events_run
    (h : ∀ p ∈ bodiesOf units, (a.harvestBody p.1 p.2).effects.cancels = false) :
    (a.run false units).events.toList = (bodiesOf units).flatMap fun p =>
      a.opening p.1 p.2 ++ (a.harvestBody p.1 p.2).effects.events := by
  rw [← map_workItems, List.forall_mem_map] at h
  rw [run, runOver, Run.foldl_visit rfl h, ← map_workItems, List.flatMap_map]
  show (#[] ++ _ : Array Event).toList = _
  rw [Array.toList_appendList, List.nil_append]

/-- If nothing asks for cancellation the diagnostics are those of all bodies in order,
whatever order the bodies were taken in. -/
theorem diagnostics_runOver (hwork : work.Perm (workItems units))
    (h : ∀ u ∈ units, ∀ b ∈ u.bodies, (a.harvestBody u b).effects.cancels = false) :
    ((a.runOver false work).outcome a).diagnostics =
      units.flatMap fun u => u.bodies.flatMap fun b =>
        (a.harvestBody u b).items.map Finding.diagnostic := by
  have hbodies : ∀ p ∈ bodiesOf units, (a.harvestBody p.1 p.2).effects.cancels = false :=
    fun p hp => h p.1 (mem_bodiesOf.1 hp).1 p.2 (mem_bodiesOf.1 hp).2
  rw [a.outcome_runOver hwork hbodies, bodiesOf, List.flatMap_assoc]
  exact List.flatMap_congr fun u _ => List.flatMap_map _ _ _

end Analyzer

/-- What is counted on the one side or on the other is counted once. -/
theorem sum_ite_add_sum_ite {α : Type} (p : α → Bool) (as : List α) :
    (as.map fun a => if p a then 0 else 1).sum + (as.map fun a => if p a then 1 else 0).sum =
      as.length := by
  have hone (a : α) : ((if p a then 0 else 1) + if p a then 1 else 0) = 1 := by split <;> rfl
  rw [← List.sum_map_add]
  simp [hone]

/-! ## What the bodies give by themselves -/

namespace Analyzer

variable (a : Analyzer)

/-- The outcome of a run over this body alone, failed registrations apart. -/
def alone (u : CompilationUnit) (b : Body) : Outcome :=
  (a.runOver false [⟨⟨0, 0⟩, u, b⟩]).outcome { a with registrationFaults := 0 }

theorem alone_eq (u : CompilationUnit) (b : Body) :
    a.alone u b =
      { diagnostics := (a.harvestBody u b).items.map Finding.diagnostic
        analyzed := if a.skips u b then 0 else 1
        skipped := if a.skips u b then 1 else 0
        faults := (a.harvestBody u b).effects.faults
        cancelled := false } := by
  have hsorted : (Sink.empty.commit ⟨0, 0⟩ (a.harvestBody u b).items).sorted =
      (a.harvestBody u b).items := (Sink.commit_last _ (by simp [Sink.empty])).1
  rw [alone, runOver, List.foldl_cons, List.foldl_nil, Run.visit_eq rfl, Run.outcome]
  simp only [Run.start, hsorted, Nat.zero_add, Nat.add_zero]

/-- If nothing asks for cancellation, an outcome is put together from those of the bodies. -/
theorem analyze_eq_alone {units : List CompilationUnit}
    (h : ∀ p ∈ bodiesOf units, (a.harvestBody p.1 p.2).effects.cancels = false) :
    a.analyze false units =
      let parts := (bodiesOf units).map fun p => a.alone p.1 p.2
      { diagnostics := parts.flatMap Outcome.diagnostics
        analyzed := (parts.map Outcome.analyzed).sum
        skipped := (parts.map Outcome.skipped).sum
        faults := (parts.map Outcome.faults).sum + a.registrationFaults
        cancelled := false } := by
  rw [analyze, run, a.outcome_runOver (.refl _) h]
  simp only [alone_eq, List.flatMap_map, List.map_map, Function.comp_def]

end Analyzer

end OpLint
