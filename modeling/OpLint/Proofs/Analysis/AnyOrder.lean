import OpLint.Proofs.Analysis.Calls

/-!
# Bodies in any order

Bodies may be visited in any order, and by several workers at once. What workers share is a
sink and some counters, and each access to one of these is one step; between its steps a
worker only computes. So what several workers do is some order of the steps of all visits.

Any two of these steps commute. Counters do because they only count. Two commits do if they
are for different bodies, and no body commits twice: the keys of the work list are all
different. What is left is what each body gives by itself, added up, in the order of the
keys and not in that of the commits.
-/

namespace OpLint

/-- One access to what the workers of a run share. -/
inductive Step
  | commit (key : BodyKey) (items : List Finding)
  | countFault
  | countAnalyzed
  | countSkipped

/-- The steps of a visit, in order, in a run that is not to stop. -/
def Analyzer.steps (a : Analyzer) (w : WorkItem) : List Step :=
  if a.skips w.unit w.body then [.countSkipped]
  else
    .replicate (a.harvestBody w.unit w.body).effects.faults .countFault ++
      [.commit w.key (a.harvestBody w.unit w.body).items, .countAnalyzed]

namespace Run

def perform (run : Run) : Step → Run
  | .commit key items => { run with sink := run.sink.commit key items }
  | .countFault => { run with faults := run.faults + 1 }
  | .countAnalyzed => { run with analyzed := run.analyzed + 1 }
  | .countSkipped => { run with skipped := run.skipped + 1 }

variable {a : Analyzer}

/-! ## The steps of one visit after the other -/

theorem foldl_countFault (n : Nat) (run : Run) :
    (List.replicate n Step.countFault).foldl perform run =
      { run with faults := run.faults + n } := by
  induction n generalizing run with
  | zero => rfl
  | succ n ih =>
      rw [List.replicate_succ, List.foldl_cons, ih, perform]
      simp only [Nat.add_assoc, Nat.add_comm 1]

theorem harvestBody_of_skips {u : CompilationUnit} {b : Body} (h : a.skips u b = true) :
    a.harvestBody u b = .none := by
  rw [Analyzer.skips] at h
  rw [Analyzer.harvestBody]
  cases hmethod : u.symbols.method? b.method with
  | none => rfl
  | some method =>
      rw [hmethod, Option.isNone_some, Bool.false_or] at h
      exact if_pos h

theorem foldl_steps (w : WorkItem) (run : Run) :
    (a.steps w).foldl perform run =
      { run with
        sink := run.sink.commit w.key (a.harvestBody w.unit w.body).items
        analyzed := run.analyzed + if a.skips w.unit w.body then 0 else 1
        skipped := run.skipped + if a.skips w.unit w.body then 1 else 0
        faults := run.faults + (a.harvestBody w.unit w.body).effects.faults } := by
  rw [Analyzer.steps]
  cases hskips : a.skips w.unit w.body with
  | true =>
      rw [harvestBody_of_skips hskips]
      rfl
  | false =>
      rw [if_neg Bool.false_ne_true, List.foldl_append, foldl_countFault]
      rfl

/-- A visit is its steps. Besides, it writes to the log, and may ask the run to stop. -/
theorem visit_eq_steps {run : Run} (h : run.stopping = false) (w : WorkItem) :
    run.visit a w =
      { (a.steps w).foldl perform run with
        stopping := (a.harvestBody w.unit w.body).effects.cancels
        events := run.events ++
          (a.opening w.unit w.body ++ (a.harvestBody w.unit w.body).effects.events) } := by
  rw [visit_eq h, foldl_steps]

/-- Visits one after the other are their steps one after the other. -/
theorem foldl_steps_eq_foldl_visit {work : List WorkItem} {run run' : Run}
    (h : run.stopping = false)
    (hwork : ∀ w ∈ work, (a.harvestBody w.unit w.body).effects.cancels = false)
    (hrun : ∃ events, run' = { run with events }) :
    ∃ events, (work.flatMap a.steps).foldl perform run' =
      { work.foldl (visit a) run with events } := by
  -- The two runs differ in their logs only, and no step looks at the log.
  induction work generalizing run run' with
  | nil => exact hrun
  | cons w work ih =>
      obtain ⟨events, rfl⟩ := hrun
      have hw := hwork w List.mem_cons_self
      have hvisit := visit_eq_steps (a := a) h w
      rw [List.flatMap_cons, List.foldl_append, List.foldl_cons]
      refine ih (by rw [hvisit, hw]) (fun v hv => hwork v (List.mem_cons_of_mem w hv)) ⟨events, ?_⟩
      rw [hvisit, foldl_steps, foldl_steps, hw, ← h]

/-! ## The steps of all visits, in any order -/

/-- Two steps commute if they do not commit different findings for one body. -/
theorem perform_comm {s t : Step}
    (h : ∀ key items more, s = .commit key items → t = .commit key more → items = more)
    (run : Run) : (run.perform s).perform t = (run.perform t).perform s := by
  cases s with
  | commit k items =>
      cases t with
      | commit l more =>
          -- Commits for one body do not commute, unless they are the same.
          by_cases hkey : k = l
          · subst hkey
            rw [h k items more rfl rfl]
          · simp only [perform, Sink.commit_comm hkey]
      | _ => rfl
  | _ => cases t <;> rfl

theorem commit_mem_steps {w : WorkItem} {key : BodyKey} {items : List Finding}
    (h : .commit key items ∈ a.steps w) :
    key = w.key ∧ items = (a.harvestBody w.unit w.body).items := by
  rw [Analyzer.steps] at h
  split at h
  · simp at h
  · simpa [List.mem_replicate] using h

theorem foldl_perform_perm {units : List CompilationUnit} {steps : List Step}
    (h : steps.Perm ((workItems units).flatMap a.steps)) (run : Run) :
    steps.foldl perform run = ((workItems units).flatMap a.steps).foldl perform run := by
  refine h.foldl_eq' (fun s hs t ht run => perform_comm ?_ run) run
  rintro key items more rfl rfl
  obtain ⟨v, hv, hs⟩ := List.mem_flatMap.1 (h.mem_iff.1 hs)
  obtain ⟨w, hw, ht⟩ := List.mem_flatMap.1 (h.mem_iff.1 ht)
  obtain ⟨hkey, rfl⟩ := commit_mem_steps hs
  obtain ⟨hkey', rfl⟩ := commit_mem_steps ht
  rw [eq_of_key_eq hv hw (hkey.symm.trans hkey')]

end Run

/-- Units analyzed together give the diagnostics of the first ones, then those of the others. -/
theorem Analyzer.diagnostics_analyze_append {a : Analyzer} {xs ys : List CompilationUnit}
    (h : ∀ p ∈ bodiesOf (xs ++ ys), (a.harvestBody p.1 p.2).effects.cancels = false) :
    (a.analyze false (xs ++ ys)).diagnostics =
      (a.analyze false xs).diagnostics ++ (a.analyze false ys).diagnostics := by
  have hbodies : bodiesOf (xs ++ ys) = bodiesOf xs ++ bodiesOf ys := List.flatMap_append
  rw [hbodies, List.forall_mem_append] at h
  rw [analyze, analyze, analyze, run, run, run, a.outcome_runOver (.refl _) h.1,
    a.outcome_runOver (.refl _) h.2, a.outcome_runOver (.refl (workItems (xs ++ ys)))
      (hbodies ▸ List.forall_mem_append.2 h), hbodies, List.flatMap_append]

/-- If nothing asks for cancellation, the outcome is the same for every order of the bodies,
and for every order of the steps that the visits consist of; interleavings of the visits are
such orders. It is what the bodies give by themselves: their diagnostics one after the other,
and their counts added up, with the failed registrations once. -/
theorem outcome_any_order (a : Analyzer) (units : List CompilationUnit)
    (h : (a.run false units).stopping = false) :
    (∀ work, work.Perm (workItems units) →
        (a.runOver false work).outcome a = a.analyze false units) ∧
      (∀ run w, run.stopping = false →
        (run.visit a w).outcome a = ((a.steps w).foldl Run.perform run).outcome a) ∧
      (∀ steps : List Step, steps.Perm ((workItems units).flatMap a.steps) →
        (steps.foldl Run.perform (.start false)).outcome a = a.analyze false units) ∧
      a.analyze false units =
        { diagnostics := (bodiesOf units).flatMap fun p => (a.alone p.1 p.2).diagnostics
          analyzed := ((bodiesOf units).map fun p => (a.alone p.1 p.2).analyzed).sum
          skipped := ((bodiesOf units).map fun p => (a.alone p.1 p.2).skipped).sum
          faults := ((bodiesOf units).map fun p => (a.alone p.1 p.2).faults).sum +
            a.registrationFaults
          cancelled := false } ∧
      ∀ xs ys, units = xs ++ ys →
        (a.analyze false units).diagnostics =
          (a.analyze false xs).diagnostics ++ (a.analyze false ys).diagnostics := by
  have hcancels := a.stopping_run_eq_false_iff.1 h
  have houtcome := a.outcome_runOver (.refl (workItems units)) hcancels
  refine ⟨fun work hwork => ?_, fun run w hrun => ?_, fun steps hsteps => ?_, ?_, ?_⟩
  · rw [a.outcome_runOver hwork hcancels]
    exact houtcome.symm
  · rw [Run.visit_eq_steps hrun]
    rfl
  · have hwork : ∀ w ∈ workItems units, (a.harvestBody w.unit w.body).effects.cancels = false := by
      rw [← map_workItems, List.forall_mem_map] at hcancels
      exact hcancels
    obtain ⟨events, hfold⟩ :
        ∃ events, ((workItems units).flatMap a.steps).foldl Run.perform (.start false) =
          { a.run false units with events } := Run.foldl_steps_eq_foldl_visit rfl hwork ⟨_, rfl⟩
    rw [Run.foldl_perform_perm hsteps, hfold]
    rfl
  · simp only [Analyzer.alone_eq]
    exact houtcome
  · rintro xs ys rfl
    exact Analyzer.diagnostics_analyze_append hcancels

theorem outcome_any_order_sample :
    (Sample.analyzer.run false [Sample.unit, Sample.unit]).stopping = false ∧
      (Sample.analyzer.runOver false (workItems [Sample.unit, Sample.unit]).reverse).outcome
          Sample.analyzer =
        ⟨[Sample.diagnostic, Sample.diagnostic], 2, 0, 2, false⟩ := by
  have hstopping : (Sample.analyzer.run false [Sample.unit, Sample.unit]).stopping = false := by
    refine Sample.stopping_run (by simp) ?_
    rw [Sample.harvestBody_unit]
  obtain ⟨hwork, -, -, houtcome, -⟩ := outcome_any_order _ _ hstopping
  refine ⟨hstopping, ?_⟩
  rw [hwork _ (List.reverse_perm _), houtcome]
  have hbodies : bodiesOf [Sample.unit, Sample.unit] =
      [(Sample.unit, Sample.body), (Sample.unit, Sample.body)] := rfl
  rw [hbodies]
  simp only [Analyzer.alone_eq, List.flatMap_cons, List.map_cons, Sample.harvestBody_unit]
  rfl

end OpLint
