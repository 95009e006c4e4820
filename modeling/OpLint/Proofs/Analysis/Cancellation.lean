import OpLint.Proofs.Analysis.Crew

/-!
# Cancellation stops between bodies

A wish to cancel may come at any moment: before the run, from a callback in the middle of a
body, or from outside while bodies are under way. It is only looked at before a body starts,
so it decides which bodies are analyzed and nothing else. What is found is what a run finds
that is deaf to such wishes, less the bodies that were turned away, and these are as a whole
absent.

Where one body is analyzed after the other, a wish that was made stays, so the bodies that
were let in are the first ones.
-/

namespace OpLint

namespace Analyzer

variable (a : Analyzer) (units : List CompilationUnit)

/-- The run over all bodies of the units that is deaf to wishes to cancel. -/
def deafRun : Run :=
  (workItems units).foldl (fun run w => Run.visit a { run with stopping := false } w)
    (.start false)

theorem exists_foldl_deaf_visit (work : List WorkItem) (run : Run) :
    ∃ stopping events,
      work.foldl (fun run w => Run.visit a { run with stopping := false } w) run =
        { stopping
          sink := work.foldl
            (fun s w => s.commit w.key (a.harvestBody w.unit w.body).items) run.sink
          analyzed := run.analyzed +
            (work.map fun w => if a.skips w.unit w.body then 0 else 1).sum
          skipped := run.skipped +
            (work.map fun w => if a.skips w.unit w.body then 1 else 0).sum
          faults := run.faults +
            (work.map fun w => (a.harvestBody w.unit w.body).effects.faults).sum
          cancelled := run.cancelled
          events } := by
  induction work generalizing run with
  | nil => exact ⟨run.stopping, run.events, rfl⟩
  | cons w work ih =>
      obtain ⟨stopping, events, h⟩ := ih (Run.visit a { run with stopping := false } w)
      refine ⟨stopping, events, h.trans ?_⟩
      rw [Run.visit_eq rfl]
      simp only [List.foldl_cons, List.map_cons, List.sum_cons, Nat.add_assoc]

theorem outcome_deafRun :
    (a.deafRun units).outcome a =
      { diagnostics := (workItems units).flatMap fun w => (a.alone w.unit w.body).diagnostics
        analyzed := ((workItems units).map fun w => (a.alone w.unit w.body).analyzed).sum
        skipped := ((workItems units).map fun w => (a.alone w.unit w.body).skipped).sum
        faults := ((workItems units).map fun w => (a.alone w.unit w.body).faults).sum +
          a.registrationFaults
        cancelled := false } := by
  obtain ⟨stopping, events, h⟩ := a.exists_foldl_deaf_visit (workItems units) (.start false)
  have hsorted := Sink.sorted_foldl_commit_perm WorkItem.key
    (fun w => (a.harvestBody w.unit w.body).items) (.refl _) (pairwise_workItems units)
  rw [deafRun, h, Run.outcome]
  simp only [alone_eq, Run.start, Nat.zero_add, hsorted, List.map_flatMap]

theorem sum_analyzed_add_sum_skipped (work : List WorkItem) :
    (work.map fun w => (a.alone w.unit w.body).analyzed).sum +
        (work.map fun w => (a.alone w.unit w.body).skipped).sum = work.length := by
  simpa only [alone_eq] using
    sum_ite_add_sum_ite (fun w : WorkItem => a.skips w.unit w.body) work

end Analyzer

namespace Crew

variable {a : Analyzer} {stopping : Bool} {units : List CompilationUnit} {c : Crew}

/-- The outcome of a crew, said by what the bodies that were let in give alone. -/
theorem Sound.outcome_eq_alone (hc : Sound a stopping (workItems units) c) (hdone : c.Done) :
    c.run.outcome a =
      { diagnostics := (c.passed units).flatMap fun w => (a.alone w.unit w.body).diagnostics
        analyzed := ((c.passed units).map fun w => (a.alone w.unit w.body).analyzed).sum
        skipped := c.refused.length +
          ((c.passed units).map fun w => (a.alone w.unit w.body).skipped).sum
        faults := ((c.passed units).map fun w => (a.alone w.unit w.body).faults).sum +
          a.registrationFaults
        cancelled := !c.refused.isEmpty } := by
  simp only [Analyzer.alone_eq]
  exact hc.outcome_eq hdone

end Crew

open Analyzer

namespace Sample

/-- A rule whose handler reports the literal and asks for cancellation. -/
def hastyRule : Rule where
  descriptors := [descriptor]
  registration := .ok
    ⟨[⟨fun _ => .ofOutput true, fun _ =>
      .ofOutput [⟨.literal, fun _ => ⟨[diagnostic], none, true, []⟩⟩]⟩], true, .analyzeAndReport⟩

theorem harvestBody_hastyRule :
    (ofRules .default [hastyRule]).harvestBody unit body = ⟨[⟨0, diagnostic⟩], 0, true, []⟩ := by
  rw [harvestBody_eq_calls, callsIn_eq, visits_eq]
  rfl

theorem moves_hastyRule (key : BodyKey) :
    (ofRules .default [hastyRule]).moves ⟨key, unit, body⟩ =
      [.cancel, .step (.commit key [⟨0, diagnostic⟩]), .step .countAnalyzed] := by
  rw [moves, harvestBody_hastyRule, callsIn_eq, visits_eq]
  rfl

/-- Two workers: the first takes a body, a callback of it asks for cancellation, the second
worker comes too late, and then both do what is left. -/
def schedule : List Turn :=
  [.take 0, .proceed 0, .take 0, .proceed 1, .proceed 0, .proceed 1, .proceed 0]

theorem after_schedule :
    ∃ run, Crew.after (ofRules .default [hastyRule]) true false (workItems [unit, unit]) schedule =
      ⟨run, [], [[], []], [⟨⟨0, 0⟩, unit, body⟩], [⟨⟨1, 0⟩, unit, body⟩]⟩ := by
  have hwork : workItems [unit, unit] = [⟨⟨0, 0⟩, unit, body⟩, ⟨⟨1, 0⟩, unit, body⟩] := rfl
  rw [hwork]
  simp [Crew.after, Crew.start, schedule, Crew.turn, Crew.mayTake, Crew.enter, moves_hastyRule,
    Run.start, Run.move, Run.perform, Move.turnedAway]

end Sample

/-- Cancellation is clean at the boundaries of bodies. Whatever the schedule, and whenever the
wish to cancel comes, at the end every body is counted once; the run is cancelled if a body was
turned away; and what is found is, in order, all that a deaf run finds in the bodies that
were let in. One body at a time, these are the first ones; and the analysis itself is a run of
this kind. -/
theorem cancelled_between_bodies (o : Options) (rules : List Rule) (units : List CompilationUnit)
    (concurrent stopping : Bool) (schedule : List Turn)
    (hdone : (Crew.after (ofRules o rules) concurrent stopping (workItems units) schedule).Done) :
    let a := ofRules o rules
    let c := Crew.after a concurrent stopping (workItems units) schedule
    let outcome := c.run.outcome a
    let found := fun w : WorkItem => (a.alone w.unit w.body).diagnostics
    (c.admitted ++ c.refused).Perm (workItems units) ∧
      (c.passed units).Perm c.admitted ∧ (c.passed units).Sublist (workItems units) ∧
      outcome.analyzed + outcome.skipped = (workItems units).length ∧
      (outcome.cancelled = true ↔ c.refused ≠ []) ∧
      outcome.diagnostics = (c.passed units).flatMap found ∧
      ((a.deafRun units).outcome a).diagnostics = (workItems units).flatMap found ∧
      (concurrent = false →
        c.passed units = (workItems units).take c.admitted.length ∧
          outcome.diagnostics <+: ((a.deafRun units).outcome a).diagnostics) ∧
      ∃ schedule, let c := Crew.after a false stopping (workItems units) schedule
        c.Done ∧ c.run.outcome a = a.analyze stopping units := by
  intro a c outcome found
  have hsound : c.Sound a stopping (workItems units) := Crew.sound_after schedule
  have houtcome := hsound.outcome_eq_alone hdone
  have hdeaf := a.outcome_deafRun units
  have hbodies := hsound.bodies
  rw [hdone.1, List.append_nil] at hbodies
  refine ⟨hbodies, hsound.admitted_perm.symm, List.filter_sublist, ?_, ?_, ?_, ?_, ?_, ?_⟩
  · have hsum := a.sum_analyzed_add_sum_skipped (c.passed units)
    have hlength := hsound.length_passed hdone
    rw [show outcome = _ from houtcome]
    simp only
    omega
  · rw [show outcome = _ from houtcome]
    cases c.refused <;> simp
  · rw [show outcome = _ from houtcome]
  · rw [hdeaf]
  · rintro rfl
    have htake : c.passed units = (workItems units).take c.admitted.length :=
      Crew.passed_eq_take schedule
    refine ⟨htake, ((workItems units).drop c.admitted.length).flatMap found, ?_⟩
    rw [show outcome = _ from houtcome, hdeaf]
    simp only
    rw [htake, ← List.flatMap_append, List.take_append_drop]
  · exact Crew.exists_schedule a stopping (workItems units)

theorem cancelled_between_bodies_sample :
    let a := ofRules .default [Sample.hastyRule]
    let c := Crew.after a true false (workItems [Sample.unit, Sample.unit]) Sample.schedule
    c.Done ∧ (c.run.outcome a).diagnostics = [Sample.diagnostic] ∧
      (c.run.outcome a).analyzed + (c.run.outcome a).skipped = 2 ∧
      (c.run.outcome a).cancelled = true := by
  intro a c
  obtain ⟨run, hc⟩ := Sample.after_schedule
  have hdone : c.Done := by
    rw [show c = _ from hc]
    exact ⟨rfl, by simp⟩
  obtain ⟨-, hpassed, -, hcount, hcancelled, hfound, -⟩ := cancelled_between_bodies .default
    [Sample.hastyRule] [Sample.unit, Sample.unit] true false Sample.schedule hdone
  refine ⟨hdone, ?_, hcount, ?_⟩
  · have hadmitted : c.admitted = [⟨⟨0, 0⟩, Sample.unit, Sample.body⟩] := congrArg Crew.admitted hc
    rw [show c.admitted = _ from hadmitted, List.perm_singleton] at hpassed
    refine hfound.trans ?_
    rw [hpassed, List.flatMap_singleton, alone_eq, Sample.harvestBody_hastyRule]
    rfl
  · have hrefused : c.refused ≠ [] := by
      rw [show c = _ from hc]
      exact List.cons_ne_nil _ _
    exact hcancelled.2 hrefused

end OpLint
