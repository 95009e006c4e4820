import OpLint.Proofs.Analysis.AnyOrder

/-!
# Workers that share a run

A worker that takes a body first looks whether cancellation was asked for. Then it either
turns the body away or does everything that its analysis consists of, one move after the
other. Between two moves of one worker others may make theirs, and somebody outside may ask
for cancellation at any time. A crew is such a run at one moment. A schedule is a list of
turns that says who comes next, and a turn that nobody can take changes nothing.

The moves made so far and those still to be made are, up to their order, all moves of the
bodies taken so far: that is what every turn keeps. Since moves commute, a crew with nothing
left to do has come to what these moves give in any order, and what they give can be said
body by body.
-/

namespace OpLint

/-! ## Moves -/

/-- One access to what the workers of a run share, the wish to cancel included. -/
inductive Move
  | step (s : Step)
  | cancel
  /-- Notes that cancellation left out a body. -/
  | noteCancelled

/-- What a call does to what the workers share. A callback that fails is counted after
whatever it did. -/
def Call.moves (c : Call) : List Move :=
  (if c.cancels then [.cancel] else []) ++ if c.fails then [.step .countFault] else []

/-- What a worker does for a body that it did not turn away. -/
def Analyzer.moves (a : Analyzer) (w : WorkItem) : List Move :=
  if a.skips w.unit w.body then [.step .countSkipped]
  else
    (a.callsIn w.unit w.body).flatMap Call.moves ++
      [.step (.commit w.key (a.harvestBody w.unit w.body).items), .step .countAnalyzed]

/-- What a worker does for a body that it turned away. -/
def Move.turnedAway : List Move :=
  [.noteCancelled, .step .countSkipped]

namespace Run

variable {a : Analyzer}

def move (run : Run) : Move → Run
  | .step s => run.perform s
  | .cancel => { run with stopping := true }
  | .noteCancelled => { run with cancelled := true }

theorem foldl_callMoves (calls : List Call) (run : Run) :
    (calls.flatMap Call.moves).foldl move run =
      { run with
        stopping := run.stopping || calls.any Call.cancels
        faults := run.faults + calls.countP Call.fails } := by
  induction calls generalizing run with
  | nil =>
      rw [List.any_nil, Bool.or_false]
      rfl
  | cons c calls ih =>
      have hcall : (Call.moves c).foldl move run =
          { run with
            stopping := run.stopping || c.cancels
            faults := run.faults + if c.fails then 1 else 0 } := by
        rw [Call.moves]
        cases c.cancels <;> cases c.fails <;> simp [move, perform]
      rw [List.flatMap_cons, List.foldl_append, hcall, ih, List.any_cons, List.countP_cons,
        Bool.or_assoc, Nat.add_assoc, Nat.add_comm (List.countP _ _)]

/-- All that the moves for a body do to a run. -/
theorem foldl_moves (w : WorkItem) (run : Run) :
    (a.moves w).foldl move run =
      { run with
        stopping := run.stopping || (a.harvestBody w.unit w.body).effects.cancels
        sink := run.sink.commit w.key (a.harvestBody w.unit w.body).items
        analyzed := run.analyzed + if a.skips w.unit w.body then 0 else 1
        skipped := run.skipped + if a.skips w.unit w.body then 1 else 0
        faults := run.faults + (a.harvestBody w.unit w.body).effects.faults } := by
  rw [Analyzer.moves]
  cases hskips : a.skips w.unit w.body with
  | true =>
      rw [harvestBody_of_skips hskips, Harvest.none, Effects.none, Bool.or_false]
      rfl
  | false =>
      rw [if_neg Bool.false_ne_true, List.foldl_append, foldl_callMoves, a.harvestBody_eq_calls]
      rfl

theorem foldl_flatMap_moves (work : List WorkItem) (run : Run) :
    (work.flatMap a.moves).foldl move run =
      { run with
        stopping := run.stopping ||
          work.any fun w => (a.harvestBody w.unit w.body).effects.cancels
        sink := work.foldl
          (fun s w => s.commit w.key (a.harvestBody w.unit w.body).items) run.sink
        analyzed := run.analyzed + (work.map fun w => if a.skips w.unit w.body then 0 else 1).sum
        skipped := run.skipped + (work.map fun w => if a.skips w.unit w.body then 1 else 0).sum
        faults := run.faults +
          (work.map fun w => (a.harvestBody w.unit w.body).effects.faults).sum } := by
  induction work generalizing run with
  | nil =>
      rw [List.any_nil, Bool.or_false]
      rfl
  | cons w work ih =>
      rw [List.flatMap_cons, List.foldl_append, foldl_moves, ih]
      simp only [List.any_cons, List.map_cons, List.sum_cons, List.foldl_cons, Bool.or_assoc,
        Nat.add_assoc]

theorem foldl_flatMap_turnedAway {α : Type} (refused : List α) (run : Run) :
    (refused.flatMap fun _ => Move.turnedAway).foldl move run =
      { run with
        cancelled := run.cancelled || !refused.isEmpty
        skipped := run.skipped + refused.length } := by
  induction refused generalizing run with
  | nil =>
      show run = { run with cancelled := run.cancelled || false, .. }
      rw [Bool.or_false]
  | cons w refused ih =>
      rw [List.flatMap_cons, List.foldl_append, ih]
      show { run with cancelled := true || _, skipped := run.skipped + 1 + _, .. } = _
      simp only [Bool.true_or, List.isEmpty_cons, Bool.not_false, Bool.or_true,
        List.length_cons, Nat.add_assoc, Nat.add_comm 1]

theorem foldl_cancel (n : Nat) (run : Run) :
    ∃ stopping, (List.replicate n Move.cancel).foldl move run = { run with stopping } := by
  induction n generalizing run with
  | zero => exact ⟨run.stopping, rfl⟩
  | succ n ih =>
      obtain ⟨stopping, h⟩ := ih (run.move .cancel)
      exact ⟨stopping, h⟩

/-- The run without its log. -/
def unlogged (run : Run) : Run :=
  { run with events := #[] }

/-- No move looks at the log. -/
theorem unlogged_foldl_move (moves : List Move) (run : Run) :
    (moves.foldl move run).unlogged = moves.foldl move run.unlogged := by
  induction moves generalizing run with
  | nil => rfl
  | cons m moves ih =>
      have hmove : (run.move m).unlogged = run.unlogged.move m := by
        cases m with
        | step s => cases s <;> rfl
        | _ => rfl
      rw [List.foldl_cons, ih, hmove]
      rfl

/-- Apart from the log, a visit is what a worker does for a body. -/
theorem unlogged_visit (run : Run) (w : WorkItem) :
    (run.visit a w).unlogged =
      (if run.stopping then Move.turnedAway else a.moves w).foldl move run.unlogged := by
  cases h : run.stopping with
  | true =>
      rw [visit, h]
      rfl
  | false =>
      rw [visit_eq h, if_neg Bool.false_ne_true, ← unlogged_foldl_move, foldl_moves, h,
        Bool.false_or]
      rfl

/-- Two moves commute if they do not commit different findings for one body. -/
theorem move_comm {m n : Move}
    (h : ∀ key items more, m = .step (.commit key items) → n = .step (.commit key more) →
      items = more) (run : Run) : (run.move m).move n = (run.move n).move m := by
  cases m with
  | step s =>
      cases n with
      | step t =>
          refine perform_comm (fun key items more hs ht => h key items more ?_ ?_) run
          · rw [hs]
          · rw [ht]
      | _ => cases s <;> rfl
  | _ =>
      cases n with
      | step t => cases t <;> rfl
      | _ => rfl

theorem commit_mem_moves {w : WorkItem} {key : BodyKey} {items : List Finding}
    (h : .step (.commit key items) ∈ a.moves w) :
    key = w.key ∧ items = (a.harvestBody w.unit w.body).items := by
  have hcalls : .step (.commit key items) ∉ (a.callsIn w.unit w.body).flatMap Call.moves := by
    intro hmem
    obtain ⟨c, -, hmem⟩ := List.mem_flatMap.1 hmem
    rw [Call.moves] at hmem
    cases hcancels : c.cancels <;> cases hfails : c.fails <;> simp [hcancels, hfails] at hmem
  rw [Analyzer.moves] at h
  split at h
  · simp at h
  · simpa [hcalls] using h

end Run

/-! ## Crews -/

structure Crew where
  run : Run
  /-- The bodies that nobody has taken yet. -/
  waiting : List WorkItem
  /-- For each worker that took a body, what it still has to do for it. -/
  busy : List (List Move)
  /-- The bodies that were let in, in the order in which they were taken. -/
  admitted : List WorkItem
  /-- The bodies that were turned away. -/
  refused : List WorkItem

/-- What may happen next. -/
inductive Turn
  /-- Somebody outside asks for cancellation. -/
  | cancel
  /-- Somebody takes the waiting body at that place. -/
  | take (place : Nat)
  /-- The worker at that place makes its next move. -/
  | proceed (place : Nat)

namespace Crew

/-- A crew before its first turn. -/
def start (stopping : Bool) (work : List WorkItem) : Crew :=
  ⟨.start stopping, work, [], [], []⟩

/-- Hands a body to a worker, who looks whether the run is to stop. -/
def enter (a : Analyzer) (c : Crew) (w : WorkItem) : Crew :=
  if c.run.stopping then
    { c with busy := c.busy ++ [Move.turnedAway], refused := c.refused ++ [w] }
  else { c with busy := c.busy ++ [a.moves w], admitted := c.admitted ++ [w] }

/-- Whether the waiting body at that place may be taken. Unless several bodies may be under
way, it has to be the next one, and all that were taken before must have come to their end. -/
def mayTake (c : Crew) (concurrent : Bool) (place : Nat) : Bool :=
  concurrent || place = 0 && c.busy.all List.isEmpty

def turn (a : Analyzer) (concurrent : Bool) (c : Crew) : Turn → Crew
  | .cancel => { c with run := c.run.move .cancel }
  | .take place =>
    if c.mayTake concurrent place then
      match c.waiting[place]? with
      | some w => { c with waiting := c.waiting.eraseIdx place }.enter a w
      | none => c
    else c
  | .proceed place =>
    match c.busy[place]? with
    | some (m :: moves) => { c with run := c.run.move m, busy := c.busy.set place moves }
    | _ => c

/-- The crew after a schedule. -/
def after (a : Analyzer) (concurrent stopping : Bool) (work : List WorkItem)
    (schedule : List Turn) : Crew :=
  schedule.foldl (turn a concurrent) (start stopping work)

/-- Whether nothing is left to do. -/
def Done (c : Crew) : Prop :=
  c.waiting = [] ∧ ∀ moves ∈ c.busy, moves = []

/-! ## What every turn keeps -/

/-- What holds of a crew at any time: no body gets lost, none is turned away without a wish to
cancel, and the moves made and those to be made are the moves of the bodies taken. The
wishes from outside come on top. -/
structure Sound (a : Analyzer) (stopping : Bool) (work : List WorkItem) (c : Crew) : Prop where
  bodies : (c.admitted ++ c.refused ++ c.waiting).Perm work
  refusals : c.refused ≠ [] → c.run.stopping = true
  moves : ∃ made wishes, c.run = made.foldl Run.move (.start stopping) ∧
    (made ++ c.busy.flatten).Perm
      (List.replicate wishes .cancel ++ (c.refused.flatMap fun _ => Move.turnedAway) ++
        c.admitted.flatMap a.moves)

variable {a : Analyzer} {concurrent stopping : Bool} {work : List WorkItem} {c : Crew}

theorem sound_start : Sound a stopping work (start stopping work) where
  bodies := .refl _
  refusals h := absurd rfl h
  moves := ⟨[], 0, rfl, .refl _⟩

theorem perm_cons_eraseIdx {α : Type} {as : List α} {i : Nat} {x : α} (h : as[i]? = some x) :
    as.Perm (x :: as.eraseIdx i) := by
  obtain ⟨hi, rfl⟩ := List.getElem?_eq_some_iff.1 h
  exact (List.getElem_cons_eraseIdx_perm hi).symm

/-- Taking the head of one list takes it from all of them. -/
theorem perm_flatten_set {α : Type} {lists : List (List α)} {i : Nat} {x : α} {xs : List α}
    (h : lists[i]? = some (x :: xs)) :
    lists.flatten.Perm (x :: (lists.set i xs).flatten) := by
  induction lists generalizing i with
  | nil => simp at h
  | cons l lists ih =>
      cases i with
      | zero =>
          obtain rfl : l = x :: xs := by simpa using h
          exact .refl _
      | succ i =>
          show (l ++ lists.flatten).Perm (x :: (l ++ (lists.set i xs).flatten))
          exact ((ih (by simpa using h)).append_left l).trans List.perm_middle

theorem Sound.enter (hc : Sound a stopping work c) {w : WorkItem} {rest : List WorkItem}
    (hw : c.waiting.Perm (w :: rest)) :
    Sound a stopping work ({ c with waiting := rest }.enter a w) := by
  obtain ⟨hbodies, hrefusals, made, wishes, hrun, hmoves⟩ := hc
  have hbodies : (c.admitted ++ c.refused ++ w :: rest).Perm work :=
    (hw.symm.append_left _).trans hbodies
  rw [Crew.enter]
  split
  · next hstopping =>
      refine ⟨?_, fun _ => hstopping, made, wishes, hrun, ?_⟩
      · simpa only [List.append_assoc, List.singleton_append] using hbodies
      · simp only [List.flatten_append, List.flatMap_append, List.flatten_singleton,
          List.flatMap_singleton, ← List.append_assoc]
        refine (hmoves.append_right Move.turnedAway).trans ?_
        simp only [List.append_assoc]
        exact (List.perm_append_comm.append_left _).append_left _
  · refine ⟨?_, hrefusals, made, wishes, hrun, ?_⟩
    · simp only [List.append_assoc, List.singleton_append] at hbodies ⊢
      exact (List.perm_middle.symm.append_left _).trans hbodies
    · simp only [List.flatten_append, List.flatMap_append, List.flatten_singleton,
        List.flatMap_singleton, ← List.append_assoc]
      exact hmoves.append_right _

theorem Sound.turn (hc : Sound a stopping work c) (t : Turn) :
    Sound a stopping work (c.turn a concurrent t) := by
  cases t with
  | cancel =>
      obtain ⟨hbodies, -, made, wishes, hrun, hmoves⟩ := hc
      refine ⟨hbodies, fun _ => rfl, made ++ [.cancel], wishes + 1, ?_, ?_⟩
      · rw [List.foldl_append, ← hrun]
        rfl
      · rw [List.append_assoc, List.singleton_append]
        exact List.perm_middle.trans (hmoves.cons _)
  | take place =>
      rw [Crew.turn]
      split
      · split
        · next w hw => exact hc.enter (perm_cons_eraseIdx hw)
        · exact hc
      · exact hc
  | proceed place =>
      rw [Crew.turn]
      split
      · next m moves hbusy =>
          obtain ⟨hbodies, hrefusals, made, wishes, hrun, hmoves⟩ := hc
          refine ⟨hbodies, fun h => ?_, made ++ [m], wishes, ?_, ?_⟩
          · have hstopping := hrefusals h
            cases m with
            | step s => cases s <;> exact hstopping
            | cancel => rfl
            | noteCancelled => exact hstopping
          · rw [List.foldl_append, ← hrun]
            rfl
          · rw [List.append_assoc, List.singleton_append]
            exact ((perm_flatten_set hbusy).symm.append_left _).trans hmoves
      · exact hc

theorem sound_after (schedule : List Turn) :
    Sound a stopping work (after a concurrent stopping work schedule) := by
  have hrun (c : Crew) (hc : Sound a stopping work c) :
      Sound a stopping work (schedule.foldl (turn a concurrent) c) := by
    induction schedule generalizing c with
    | nil => exact hc
    | cons t schedule ih => exact ih _ (hc.turn t)
  exact hrun _ sound_start

/-! ## What a crew comes to -/

/-- The bodies that were let in, in order. -/
def passed (c : Crew) (units : List CompilationUnit) : List WorkItem :=
  (workItems units).filter fun w => w.key ∈ c.admitted.map WorkItem.key

variable {units : List CompilationUnit}

theorem filter_key_append {xs ys : List WorkItem} (h : ((xs ++ ys).map WorkItem.key).Nodup) :
    ((xs ++ ys).filter fun w => w.key ∈ xs.map WorkItem.key) = xs := by
  rw [List.map_append, List.nodup_append] at h
  rw [List.filter_append, List.filter_eq_self.2, List.filter_eq_nil_iff.2, List.append_nil]
  · intro w hw hmem
    exact h.2.2 _ (of_decide_eq_true hmem) _ (List.mem_map_of_mem hw) rfl
  · exact fun w hw => decide_eq_true (List.mem_map_of_mem hw)

theorem Sound.admitted_perm (hc : Sound a stopping (workItems units) c) :
    c.admitted.Perm (c.passed units) := by
  have hbodies := hc.bodies
  rw [List.append_assoc] at hbodies
  have hnodup : ((c.admitted ++ (c.refused ++ c.waiting)).map WorkItem.key).Nodup :=
    (hbodies.map _).nodup_iff.2 (BodyKey.nodup_of_pairwise (pairwise_workItems units))
  have hfilter := hbodies.filter fun w => w.key ∈ c.admitted.map WorkItem.key
  rwa [filter_key_append hnodup] at hfilter

/-- What a crew with nothing left to do has come to is what the bodies that were let in give,
in any order, with the others counted. -/
theorem Sound.run_eq (hc : Sound a stopping (workItems units) c) (hdone : c.Done) :
    ∃ stopping, c.run =
      { stopping
        sink := c.admitted.foldl
          (fun s w => s.commit w.key (a.harvestBody w.unit w.body).items) .empty
        analyzed := (c.admitted.map fun w => if a.skips w.unit w.body then 0 else 1).sum
        skipped := c.refused.length +
          (c.admitted.map fun w => if a.skips w.unit w.body then 1 else 0).sum
        faults := (c.admitted.map fun w => (a.harvestBody w.unit w.body).effects.faults).sum
        cancelled := !c.refused.isEmpty
        events := #[] } := by
  obtain ⟨made, wishes, hrun, hmoves⟩ := hc.moves
  have hmem (w : WorkItem) (hw : w ∈ c.admitted) : w ∈ workItems units :=
    List.mem_of_mem_filter (hc.admitted_perm.mem_iff.1 hw)
  have hcommit {key : BodyKey} {items : List Finding} (h : .step (.commit key items) ∈ made) :
      ∃ w ∈ workItems units, key = w.key ∧ items = (a.harvestBody w.unit w.body).items := by
    have := hmoves.mem_iff.1 (List.mem_append_left _ h)
    obtain ⟨w, hw, h⟩ : ∃ w ∈ c.admitted, .step (.commit key items) ∈ a.moves w := by
      simpa [Move.turnedAway] using this
    exact ⟨w, hmem w hw, Run.commit_mem_moves h⟩
  rw [List.flatten_eq_nil_iff.2 hdone.2, List.append_nil] at hmoves
  have hcomm : ∀ m ∈ made, ∀ n ∈ made, ∀ run : Run,
      (run.move m).move n = (run.move n).move m := by
    refine fun m hm n hn run => Run.move_comm ?_ run
    rintro key items more rfl rfl
    obtain ⟨v, hv, hkey, rfl⟩ := hcommit hm
    obtain ⟨w, hw, hkey', rfl⟩ := hcommit hn
    rw [eq_of_key_eq hv hw (hkey.symm.trans hkey')]
  obtain ⟨stopping', hcancel⟩ := Run.foldl_cancel wishes (.start stopping)
  refine ⟨stopping' || c.admitted.any fun w =>
    (a.harvestBody w.unit w.body).effects.cancels, ?_⟩
  rw [hrun, hmoves.foldl_eq' hcomm, List.foldl_append, List.foldl_append, hcancel,
    Run.foldl_flatMap_turnedAway, Run.foldl_flatMap_moves]
  simp only [Run.start, Nat.zero_add, Bool.false_or]

/-- The outcome of a crew with nothing left to do. -/
theorem Sound.outcome_eq (hc : Sound a stopping (workItems units) c) (hdone : c.Done) :
    c.run.outcome a =
      { diagnostics := (c.passed units).flatMap fun w =>
          (a.harvestBody w.unit w.body).items.map Finding.diagnostic
        analyzed := ((c.passed units).map fun w => if a.skips w.unit w.body then 0 else 1).sum
        skipped := c.refused.length +
          ((c.passed units).map fun w => if a.skips w.unit w.body then 1 else 0).sum
        faults := ((c.passed units).map fun w =>
          (a.harvestBody w.unit w.body).effects.faults).sum + a.registrationFaults
        cancelled := !c.refused.isEmpty } := by
  have hperm := hc.admitted_perm
  obtain ⟨stopping, hrun⟩ := hc.run_eq hdone
  have hsorted := Sink.sorted_foldl_commit_perm WorkItem.key
    (fun w => (a.harvestBody w.unit w.body).items) hperm
    ((pairwise_workItems units).sublist List.filter_sublist)
  rw [hrun, Run.outcome, hsorted, List.map_flatMap, (hperm.map _).sum_nat, (hperm.map _).sum_nat,
    (hperm.map _).sum_nat]

theorem Sound.length_passed (hc : Sound a stopping (workItems units) c) (hdone : c.Done) :
    c.refused.length + (c.passed units).length = (workItems units).length := by
  have hlength := hc.bodies.length_eq
  rw [hdone.1, List.append_nil, List.length_append, hc.admitted_perm.length_eq] at hlength
  rw [Nat.add_comm, hlength]

/-- Where nobody asks for cancellation, a crew comes to what an analysis comes to. -/
theorem Sound.outcome_eq_analyze (hc : Sound a stopping (workItems units) c) (hdone : c.Done)
    (hstopping : c.run.stopping = false)
    (h : ∀ p ∈ bodiesOf units, (a.harvestBody p.1 p.2).effects.cancels = false) :
    c.run.outcome a = a.analyze false units := by
  have hrefused : c.refused = [] := by
    by_contra hne
    rw [hc.refusals hne] at hstopping
    cases hstopping
  have hpassed : c.passed units = workItems units := by
    have hlength := hc.length_passed hdone
    rw [hrefused, List.length_nil, Nat.zero_add] at hlength
    exact List.filter_sublist.eq_of_length hlength
  rw [hc.outcome_eq hdone, hpassed, hrefused, Analyzer.analyze, Analyzer.run,
    Analyzer.outcome_runOver _ (.refl _) h, ← map_workItems]
  simp only [List.flatMap_map, List.map_map, List.length_nil, Nat.zero_add, List.isEmpty_nil,
    Bool.not_true, Function.comp_def]

/-! ## One body at a time -/

/-- Where only one body may be under way, the bodies are taken in their order, and those that
were let in come first. -/
theorem inOrder_after (schedule : List Turn) :
    let c := after a false stopping work schedule
    c.admitted ++ c.refused ++ c.waiting = work := by
  have hrun (c : Crew) (hc : Sound a stopping work c)
      (horder : c.admitted ++ c.refused ++ c.waiting = work) :
      let c' := schedule.foldl (turn a false) c
      c'.admitted ++ c'.refused ++ c'.waiting = work := by
    induction schedule generalizing c with
    | nil => exact horder
    | cons t schedule ih =>
        refine ih _ (hc.turn t) ?_
        cases t with
        | cancel => exact horder
        | take place =>
            rw [turn]
            split
            · next hmay =>
                obtain rfl : place = 0 := by
                  simp only [mayTake, Bool.false_or, Bool.and_eq_true, decide_eq_true_eq] at hmay
                  exact hmay.1
                cases hwaiting : c.waiting with
                | nil => exact horder
                | cons w rest =>
                    rw [hwaiting] at horder
                    simp only [List.getElem?_cons_zero, List.eraseIdx_cons_zero, enter]
                    split
                    · simpa only [List.append_assoc, List.singleton_append] using horder
                    · next hstopping =>
                        -- As nobody asked for cancellation, none was turned away before.
                        have hnone : c.refused = [] :=
                          Decidable.byContradiction fun h => hstopping (hc.refusals h)
                        rw [hnone, List.append_nil] at horder ⊢
                        rw [List.append_assoc]
                        exact horder
            · exact horder
        | proceed place =>
            rw [turn]
            split <;> exact horder
  exact hrun _ sound_start rfl

theorem passed_eq_take (schedule : List Turn) :
    let c := after a false stopping (workItems units) schedule
    c.passed units = (workItems units).take c.admitted.length := by
  intro c
  have horder : c.admitted ++ (c.refused ++ c.waiting) = workItems units := by
    rw [← List.append_assoc]
    exact inOrder_after schedule
  have hnodup := BodyKey.nodup_of_pairwise (pairwise_workItems units)
  rw [passed, ← horder, List.take_left]
  exact filter_key_append (horder ▸ hnodup)

/-- A worker that nobody interrupts makes all its moves. -/
theorem foldl_proceed (a : Analyzer) (concurrent : Bool) {c : Crew}
    {before : List (List Move)} {moves : List Move} (h : c.busy = before ++ [moves]) :
    (List.replicate moves.length (.proceed before.length)).foldl (turn a concurrent) c =
      { c with run := moves.foldl Run.move c.run, busy := before ++ [[]] } := by
  induction moves generalizing c with
  | nil =>
      rw [← h]
      rfl
  | cons m moves ih =>
      have hturn : c.turn a concurrent (.proceed before.length) =
          { c with run := c.run.move m, busy := before ++ [moves] } := by
        rw [turn, h]
        simp
      rw [List.length_cons, List.replicate_succ, List.foldl_cons, hturn]
      exact ih rfl

theorem exists_enter_eq (c : Crew) (w : WorkItem) {moves : List Move}
    (h : moves = if c.run.stopping then Move.turnedAway else a.moves w) :
    ∃ admitted refused,
      c.enter a w = ⟨c.run, c.waiting, c.busy ++ [moves], admitted, refused⟩ := by
  rw [enter, h]
  split
  · exact ⟨_, _, rfl⟩
  · exact ⟨_, _, rfl⟩

theorem exists_turns {c : Crew} {run : Run} (hbusy : ∀ moves ∈ c.busy, moves = [])
    (hrun : c.run.unlogged = run.unlogged) :
    ∃ schedule : List Turn, let c' := schedule.foldl (turn a false) c
      c'.Done ∧ c'.run.unlogged = (c.waiting.foldl (Run.visit a) run).unlogged := by
  induction hwaiting : c.waiting generalizing c run with
  | nil => exact ⟨[], ⟨hwaiting, hbusy⟩, hrun⟩
  | cons w rest ih =>
      obtain ⟨moves, hmoves⟩ :
          ∃ moves, moves = if c.run.stopping then Move.turnedAway else a.moves w := ⟨_, rfl⟩
      obtain ⟨admitted, refused, henter⟩ :
          ∃ admitted refused, { c with waiting := rest }.enter a w =
            ⟨c.run, rest, c.busy ++ [moves], admitted, refused⟩ :=
        exists_enter_eq { c with waiting := rest } w hmoves
      have hall : c.busy.all List.isEmpty = true :=
        List.all_eq_true.2 fun moves hmoves => List.isEmpty_iff.2 (hbusy moves hmoves)
      have htake : c.turn a false (.take 0) = { c with waiting := rest }.enter a w := by
        rw [turn, if_pos (by simp [mayTake, hall]), hwaiting]
        rfl
      have hproceed := foldl_proceed a false (congrArg busy henter)
      have hstopping : c.run.stopping = run.stopping := by
        show c.run.unlogged.stopping = run.unlogged.stopping
        rw [hrun]
      have hvisit := Run.unlogged_visit (a := a) run w
      rw [← hrun, ← Run.unlogged_foldl_move, ← hstopping, ← hmoves] at hvisit
      obtain ⟨schedule, hdone, hschedule⟩ := ih (c := ⟨_, rest, c.busy ++ [[]], admitted, refused⟩)
        (fun moves hmoves => (List.mem_append.1 hmoves).elim (hbusy moves) List.mem_singleton.1)
        hvisit.symm rfl
      refine ⟨.take 0 :: (List.replicate moves.length (.proceed c.busy.length) ++ schedule), ?_⟩
      rw [List.foldl_cons, htake, List.foldl_append, hproceed, henter]
      exact ⟨hdone, hschedule⟩

/-- Some schedule does what a run does that takes the bodies one after the other. -/
theorem exists_schedule (a : Analyzer) (stopping : Bool) (work : List WorkItem) :
    ∃ schedule, let c := after a false stopping work schedule
      c.Done ∧ c.run.outcome a = (a.runOver stopping work).outcome a := by
  have hstart : (start stopping work).run.unlogged = (Run.start stopping).unlogged := rfl
  obtain ⟨schedule, hdone, hrun⟩ := exists_turns (a := a) (by simp [start]) hstart
  refine ⟨schedule, hdone, ?_⟩
  show ((schedule.foldl _ _ : Crew).run.unlogged).outcome a = _
  rw [hrun]
  rfl

end Crew

end OpLint
