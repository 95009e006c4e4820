import Mathlib.Data.List.Induction
import OpLint.Report.Basic

/-!
# What a table of sources knows does not depend on the order

For each file name the table is in one of three states: it has met no source, it knows a text,
or it knows that the texts differ. A unit takes the state of its file name one step further at
most, and from the last state there is no way back.

So the state of a name can be said of the units alone. `Standing.Fits` says it: no unit carries
a source, or some do and they all carry this one, or two carry different ones. Every unit keeps
that true, and of the three states only one fits. The order of the units, their division into
batches and their repetitions do not occur in it, and a report looks at nothing else. The
warnings are counted along with the states: a name is warned about when it takes the last step,
which it does once.
-/

namespace OpLint

/-- What a table of sources knows about a file name. -/
inductive Standing
  | absent
  | known (text : String)
  | ambiguous
  deriving DecidableEq

namespace Standing

/-- The standing after one more source. -/
def learn : Standing → String → Standing
  | absent, text => known text
  | known text, other => if text = other then known text else ambiguous
  | ambiguous, _ => ambiguous

/-- Whether this is what one should know if exactly these texts are carried. -/
def Fits (carried : String → Prop) : Standing → Prop
  | absent => ∀ text, ¬ carried text
  | known text => carried text ∧ ∀ other, carried other → other = text
  | ambiguous => ∃ text other, carried text ∧ carried other ∧ text ≠ other

variable {carried : String → Prop} {standing other : Standing} {text : String}

theorem Fits.congr {carried' : String → Prop} (h : ∀ text, carried text ↔ carried' text)
    (hfits : standing.Fits carried) : standing.Fits carried' := by
  obtain rfl : carried = carried' := funext fun text => propext (h text)
  exact hfits

theorem Fits.learn (hfits : standing.Fits carried) (text : String) :
    (standing.learn text).Fits fun t => carried t ∨ t = text := by
  cases standing with
  | absent =>
      refine ⟨Or.inr rfl, ?_⟩
      rintro t (ht | rfl)
      · exact absurd ht (hfits t)
      · rfl
  | known old =>
      obtain ⟨hold, hall⟩ := hfits
      rw [Standing.learn]
      split
      · next heq =>
          refine ⟨Or.inl hold, ?_⟩
          rintro t (ht | rfl)
          · exact hall t ht
          · exact heq.symm
      · next hne => exact ⟨old, text, Or.inl hold, Or.inr rfl, hne⟩
  | ambiguous =>
      obtain ⟨t, t', ht, ht', hne⟩ := hfits
      exact ⟨t, t', Or.inl ht, Or.inl ht', hne⟩

theorem Fits.eq_known_iff (hfits : standing.Fits carried) :
    standing = known text ↔ carried text ∧ ∀ other, carried other → other = text := by
  constructor
  · rintro rfl
    exact hfits
  · rintro ⟨htext, hall⟩
    cases standing with
    | absent => exact absurd htext (hfits text)
    | known old => rw [hall old hfits.1]
    | ambiguous =>
        obtain ⟨t, t', ht, ht', hne⟩ := hfits
        exact absurd ((hall t ht).trans (hall t' ht').symm) hne

theorem Fits.eq_ambiguous_iff (hfits : standing.Fits carried) :
    standing = ambiguous ↔ ∃ text other, carried text ∧ carried other ∧ text ≠ other := by
  constructor
  · rintro rfl
    exact hfits
  · rintro ⟨t, t', ht, ht', hne⟩
    cases standing with
    | absent => exact absurd ht (hfits t)
    | known old => exact absurd ((hfits.2 t ht).trans (hfits.2 t' ht').symm) hne
    | ambiguous => rfl

/-- One standing fits at most. -/
theorem Fits.unique (hfits : standing.Fits carried) (hother : other.Fits carried) :
    standing = other := by
  cases other with
  | absent =>
      cases standing with
      | absent => rfl
      | known text => exact absurd hfits.1 (hother text)
      | ambiguous =>
          obtain ⟨t, -, ht, -⟩ := hfits
          exact absurd ht (hother t)
  | known text => exact hfits.eq_known_iff.2 hother
  | ambiguous => exact hfits.eq_ambiguous_iff.2 hother

end Standing

/-- A unit with a source and nothing else. -/
def CompilationUnit.ofSource (file text : String) : CompilationUnit :=
  { CompilationUnit.ofFile file with source := some text }

/-- Whether one of the units has that file name and that source. -/
def Carried (units : List CompilationUnit) (file text : String) : Prop :=
  ∃ u ∈ units, u.file = file ∧ u.source = some text

theorem carried_nil (file text : String) : ¬ Carried [] file text := by
  rintro ⟨u, hu, -⟩
  cases hu

theorem carried_append_singleton {units : List CompilationUnit} {u : CompilationUnit}
    {file text : String} :
    Carried (units ++ [u]) file text ↔
      Carried units file text ∨ u.file = file ∧ u.source = some text := by
  simp only [Carried, List.mem_append, List.mem_singleton, or_and_right, exists_or,
    exists_eq_left]

theorem carried_congr {units others : List CompilationUnit} (h : ∀ u, u ∈ units ↔ u ∈ others)
    (file text : String) : Carried units file text ↔ Carried others file text := by
  simp only [Carried, h]

namespace Sources

variable {s : Sources} {file text : String}

def standing (s : Sources) (file : String) : Standing :=
  match s.entries.lookup file with
  | none => .absent
  | some none => .ambiguous
  | some (some text) => .known text

/-- A file name has a usable text if the table knows one. -/
theorem text?_eq_some_iff : s.text? file = some text ↔ s.standing file = .known text := by
  rw [text?, standing]
  cases s.entries.lookup file with
  | none => exact iff_of_false nofun nofun
  | some entry => cases entry <;> simp

theorem text?_eq_none (h : s.standing file = .absent ∨ s.standing file = .ambiguous) :
    s.text? file = none := by
  refine Option.eq_none_iff_forall_ne_some.2 fun text htext => ?_
  rw [text?_eq_some_iff] at htext
  rcases h with h | h <;> cases h.symm.trans htext

theorem text?_eq_of_standing_eq {t : Sources} (h : s.standing file = t.standing file) :
    s.text? file = t.text? file :=
  Option.ext fun text => by rw [text?_eq_some_iff, text?_eq_some_iff, h]

/-! ## One unit -/

theorem standing_cons (s : Sources) (name text file : String) :
    (Sources.mk ((name, some text) :: s.entries)).standing file =
      if file = name then .known text else s.standing file := by
  rw [standing, List.lookup_cons]
  by_cases hfile : file = name
  · rw [if_pos hfile, beq_iff_eq.2 hfile]
  · rw [if_neg hfile, beq_false_of_ne hfile]
    rfl

theorem lookup_markAmbiguous (s : Sources) (name file : String) :
    (s.markAmbiguous name).entries.lookup file =
      if file = name then (s.entries.lookup file).map fun _ => none else s.entries.lookup file := by
  obtain ⟨entries⟩ := s
  show (entries.map _).lookup file = _
  induction entries with
  | nil => simp
  | cons e entries ih =>
      obtain ⟨key, text⟩ := e
      rw [List.map_cons, List.lookup_cons, ih, List.lookup_cons]
      cases hkey : file == key with
      | false => rfl
      | true =>
          obtain rfl := eq_of_beq hkey
          by_cases hname : file = name <;> simp [hname]

theorem standing_markAmbiguous {name : String} (h : s.standing name ≠ .absent) (file : String) :
    (s.markAmbiguous name).standing file =
      if file = name then .ambiguous else s.standing file := by
  rw [standing, lookup_markAmbiguous]
  by_cases hfile : file = name
  · subst hfile
    rw [if_pos rfl, if_pos rfl]
    rw [standing] at h
    cases hentry : s.entries.lookup file with
    | none => rw [hentry] at h; exact absurd rfl h
    | some entry => rfl
  · rw [if_neg hfile, if_neg hfile]
    rfl

theorem add_of_source_eq_none {u : CompilationUnit} (h : u.source = none) : s.add u = (s, []) := by
  rw [add, h]

/-- What a source does depends on the standing of its file name. -/
theorem add_of_source_eq_some {u : CompilationUnit} (h : u.source = some text) :
    s.add u =
      match s.standing u.file with
      | .absent => (⟨(u.file, some text) :: s.entries⟩, [])
      | .known known =>
        if known = text then (s, []) else (s.markAmbiguous u.file, [.ambiguousSource u.file])
      | .ambiguous => (s, []) := by
  rw [add, h, standing]
  cases s.entries.lookup u.file with
  | none => rfl
  | some entry => cases entry <;> rfl

theorem standing_add (s : Sources) (u : CompilationUnit) (file : String) :
    (s.add u).1.standing file =
      match u.source with
      | none => s.standing file
      | some text => if file = u.file then (s.standing file).learn text else s.standing file := by
  cases hsource : u.source with
  | none => rw [add_of_source_eq_none hsource]
  | some text =>
      rw [add_of_source_eq_some hsource]
      simp only []
      split
      · next hbefore =>
          rw [standing_cons]
          split
          · next hfile => rw [hfile, hbefore]; rfl
          · rfl
      · next known hbefore =>
          split
          · next heq =>
              split
              · next hfile => rw [hfile, hbefore, Standing.learn, if_pos heq]
              · rfl
          · next hne =>
              rw [standing_markAmbiguous (by rw [hbefore]; nofun)]
              split
              · next hfile => rw [hfile, hbefore, Standing.learn, if_neg hne]
              · rfl
      · next hbefore =>
          split
          · next hfile => rw [hfile, hbefore]; rfl
          · rfl

/-- A unit is warned about if it makes its file name ambiguous. -/
theorem events_add (s : Sources) (u : CompilationUnit) :
    (s.add u).2 =
      if s.standing u.file ≠ .ambiguous ∧ (s.add u).1.standing u.file = .ambiguous then
        [.ambiguousSource u.file]
      else [] := by
  rw [standing_add]
  cases hsource : u.source with
  | none =>
      rw [add_of_source_eq_none hsource]
      exact (if_neg fun h => h.1 h.2).symm
  | some text =>
      rw [add_of_source_eq_some hsource]
      cases s.standing u.file with
      | absent => simp [Standing.learn]
      | known known =>
          simp only [Standing.learn, if_true]
          split <;> simp
      | ambiguous => simp

/-- An ambiguous file name stays ambiguous. -/
theorem ambiguous_add (h : s.standing file = .ambiguous) (u : CompilationUnit) :
    (s.add u).1.standing file = .ambiguous := by
  rw [standing_add]
  cases u.source with
  | none => exact h
  | some text =>
      simp only [h, Standing.learn, ite_self]

theorem fits_add {seen : List CompilationUnit} (u : CompilationUnit)
    (h : (s.standing file).Fits (Carried seen file)) :
    ((s.add u).1.standing file).Fits (Carried (seen ++ [u]) file) := by
  rw [standing_add]
  cases hsource : u.source with
  | none =>
      refine h.congr fun text => ?_
      rw [carried_append_singleton, hsource]
      simp
  | some source =>
      simp only []
      split
      · next hfile =>
          refine (h.learn source).congr fun text => ?_
          rw [carried_append_singleton, hsource, hfile]
          simp [eq_comm]
      · next hfile =>
          refine h.congr fun text => ?_
          rw [carried_append_singleton]
          simp [Ne.symm hfile]

/-- Whether a file name has been warned about, as a number of warnings. -/
def warned (s : Sources) (file : String) : Nat :=
  if s.standing file = .ambiguous then 1 else 0

theorem count_events_add (s : Sources) (u : CompilationUnit) (file : String) :
    s.warned file + (s.add u).2.count (.ambiguousSource file) = (s.add u).1.warned file := by
  rw [events_add, warned, warned]
  by_cases hfile : file = u.file
  · subst hfile
    by_cases hbefore : s.standing u.file = .ambiguous
    · rw [if_pos hbefore, if_pos (ambiguous_add hbefore u), if_neg (fun h => h.1 hbefore)]
      rfl
    · rw [if_neg hbefore]
      by_cases hafter : (s.add u).1.standing u.file = .ambiguous
      · rw [if_pos ⟨hbefore, hafter⟩, if_pos hafter, List.count_singleton_self]
      · rw [if_neg (fun h => hafter h.2), if_neg hafter]
        rfl
  · have hstanding : (s.add u).1.standing file = s.standing file := by
      rw [standing_add]
      cases u.source with
      | none => rfl
      | some text => exact if_neg hfile
    have hcount : ∀ es : List Event, es = [] ∨ es = [.ambiguousSource u.file] →
        es.count (.ambiguousSource file) = 0 := by
      rintro _ (rfl | rfl)
      · rfl
      · simp [Ne.symm hfile]
    rw [hstanding, hcount _ (by split <;> simp)]
    rfl

/-! ## Many units, in batches or not -/

/-- Takes in the sources of several batches of units, one batch after the other. -/
def addBatches (s : Sources) (batches : List (List CompilationUnit)) : Sources × List Event :=
  batches.foldl
    (fun (s, events) units =>
      let (s, more) := s.addAll units
      (s, events ++ more))
    (s, [])

theorem foldl_add (s : Sources) (events : List Event) (units : List CompilationUnit) :
    units.foldl
        (fun (s, events) u =>
          let (s, more) := s.add u
          (s, events ++ more))
        (s, events) =
      ((s.addAll units).1, events ++ (s.addAll units).2) := by
  induction units generalizing s events with
  | nil => simp [addAll]
  | cons u units ih =>
      have hfirst : s.addAll (u :: units) =
          (((s.add u).1.addAll units).1, (s.add u).2 ++ ((s.add u).1.addAll units).2) := by
        rw [addAll, List.foldl_cons]
        exact ih _ _
      rw [List.foldl_cons, hfirst, ← List.append_assoc]
      exact ih _ _

theorem addAll_append (s : Sources) (units more : List CompilationUnit) :
    s.addAll (units ++ more) =
      (((s.addAll units).1.addAll more).1,
        (s.addAll units).2 ++ ((s.addAll units).1.addAll more).2) := by
  rw [addAll, List.foldl_append]
  exact foldl_add _ _ _

theorem addAll_cons (s : Sources) (u : CompilationUnit) (units : List CompilationUnit) :
    s.addAll (u :: units) =
      (((s.add u).1.addAll units).1, (s.add u).2 ++ ((s.add u).1.addAll units).2) :=
  foldl_add (s.add u).1 (s.add u).2 units

/-- It does not matter how units are divided into batches. -/
theorem addBatches_eq_addAll (s : Sources) (batches : List (List CompilationUnit)) :
    s.addBatches batches = s.addAll batches.flatten := by
  induction batches using List.reverseRecOn with
  | nil => rfl
  | append_singleton batches units ih =>
      rw [addBatches] at ih ⊢
      rw [List.foldl_append, ih, List.flatten_append, List.flatten_singleton, addAll_append]
      rfl

theorem ambiguous_addAll (h : s.standing file = .ambiguous) (units : List CompilationUnit) :
    (s.addAll units).1.standing file = .ambiguous := by
  induction units generalizing s with
  | nil => exact h
  | cons u units ih =>
      rw [addAll_cons]
      exact ih (ambiguous_add h u)

theorem fits_addAll {seen : List CompilationUnit} (units : List CompilationUnit)
    (h : (s.standing file).Fits (Carried seen file)) :
    ((s.addAll units).1.standing file).Fits (Carried (seen ++ units) file) := by
  induction units generalizing s seen with
  | nil => rwa [List.append_nil]
  | cons u units ih =>
      rw [addAll_cons, List.append_cons]
      exact ih (fits_add u h)

/-- The standing of a file name after units have been added to the empty table. -/
theorem fits_addAll_empty (units : List CompilationUnit) (file : String) :
    ((empty.addAll units).1.standing file).Fits (Carried units file) := by
  have hempty : (empty.standing file).Fits (Carried [] file) := fun text => carried_nil file text
  exact fits_addAll units hempty

/-- Which units have been added is all that counts. -/
theorem standing_addAll_congr {units others : List CompilationUnit}
    (h : ∀ u, u ∈ units ↔ u ∈ others) (file : String) :
    (empty.addAll units).1.standing file = (empty.addAll others).1.standing file :=
  ((fits_addAll_empty units file).congr (carried_congr h file)).unique
    (fits_addAll_empty others file)

theorem count_events_addAll (s : Sources) (units : List CompilationUnit) (file : String) :
    s.warned file + (s.addAll units).2.count (.ambiguousSource file) =
      (s.addAll units).1.warned file := by
  induction units generalizing s with
  | nil => rfl
  | cons u units ih =>
      rw [addAll_cons, List.count_append, ← Nat.add_assoc, count_events_add, ih]

theorem exists_of_mem_events_addAll {units : List CompilationUnit} {e : Event}
    (h : e ∈ (s.addAll units).2) : ∃ file, e = .ambiguousSource file := by
  induction units generalizing s with
  | nil => cases h
  | cons u units ih =>
      rw [addAll_cons, List.mem_append, events_add] at h
      rcases h with h | h
      · split at h
        · exact ⟨u.file, List.mem_singleton.1 h⟩
        · cases h
      · exact ih h

end Sources

/-! ## What a report looks at -/

namespace Reporter

variable {r r' : Reporter}

/-- A location looks at the source of its file's display name only. -/
theorem location_congr {file : String}
    (h : r.sources.text? (displayName file) = r'.sources.text? (displayName file))
    (offset : UInt32) : r.location file offset = r'.location file offset := by
  simp only [location, h]

theorem paint_congr (hcolor : r.color = r'.color) : r.paint = r'.paint := by
  funext style text
  rw [paint, paint, hcolor]

/-- A diagnostic looks at the sources of the places it names only. -/
theorem diagnostic_congr {d : Diagnostic} (hcolor : r.color = r'.color)
    (h : ∀ file ∈ d.file :: d.related.map Related.file,
      r.sources.text? (displayName file) = r'.sources.text? (displayName file)) :
    r.diagnostic d = r'.diagnostic d := by
  have hrelated : d.related.map r.related = d.related.map r'.related :=
    List.map_congr_left fun p hp => by
      rw [related, related, paint_congr hcolor,
        location_congr (h p.file (List.mem_cons_of_mem _ (List.mem_map_of_mem hp)))]
  simp only [diagnostic, paint_congr hcolor, hrelated, location_congr (h d.file List.mem_cons_self)]

theorem render_congr {ds : List Diagnostic} (h : ∀ d ∈ ds, r.diagnostic d = r'.diagnostic d) :
    r.render ds = r'.render ds := by
  rw [render, render, List.map_congr_left h]

theorem summary_congr (hcolor : r.color = r'.color) (ds : List Diagnostic) :
    r.summary ds = r'.summary ds := by
  rw [summary, summary, paint_congr hcolor]

end Reporter

namespace Sources

/-- After any batches of units a file name has the text that all units with that name and a
source carry, if there are any, and is ambiguous for ever once two of them differ; each such
name was warned about once, and nothing else was. Reports do not depend on the order of the
units, on the batches and on repetitions. -/
theorem addBatches_any_order (batches : List (List CompilationUnit)) :
    let sources := (empty.addBatches batches).1
    let events := (empty.addBatches batches).2
    let carried := Carried batches.flatten
    (∀ file text, sources.text? file = some text ↔
      carried file text ∧ ∀ other, carried file other → other = text) ∧
    (∀ file, sources.standing file = .ambiguous ↔
      ∃ text other, carried file text ∧ carried file other ∧ text ≠ other) ∧
    (∀ file, sources.standing file = .ambiguous → ∀ more,
      (sources.addBatches more).1.standing file = .ambiguous ∧
        (sources.addBatches more).1.text? file = none) ∧
    (∀ file, events.count (.ambiguousSource file) =
      if sources.standing file = .ambiguous then 1 else 0) ∧
    (∀ e ∈ events, ∃ file, e = .ambiguousSource file) ∧
    ∀ others : List (List CompilationUnit),
      (∀ u, u ∈ batches.flatten ↔ u ∈ others.flatten) → ∀ color ds,
      let r : Reporter := ⟨color, sources⟩
      let r' : Reporter := ⟨color, (empty.addBatches others).1⟩
      (∀ d, r.diagnostic d = r'.diagnostic d) ∧ r.render ds = r'.render ds ∧
        r.summary ds = r'.summary ds := by
  simp only [addBatches_eq_addAll]
  have hfits := fits_addAll_empty batches.flatten
  refine ⟨fun file text => text?_eq_some_iff.trans (hfits file).eq_known_iff,
    fun file => (hfits file).eq_ambiguous_iff, fun file h more => ?_, fun file => ?_,
    fun e => exists_of_mem_events_addAll, fun others hothers color ds => ?_⟩
  · have hafter := ambiguous_addAll h more.flatten
    exact ⟨hafter, text?_eq_none (Or.inr hafter)⟩
  · rw [← warned, ← count_events_addAll]
    exact (Nat.zero_add _).symm
  · have hdiagnostic (d : Diagnostic) :
        (Reporter.mk color (empty.addAll batches.flatten).1).diagnostic d =
          (Reporter.mk color (empty.addAll others.flatten).1).diagnostic d :=
      Reporter.diagnostic_congr rfl fun file _ =>
        text?_eq_of_standing_eq (standing_addAll_congr hothers _)
    exact ⟨hdiagnostic, Reporter.render_congr fun d _ => hdiagnostic d,
      Reporter.summary_congr rfl ds⟩

/-- Two units of one name that differ, one without a source, and one that has its name to itself
among the sources; then the same units in another order, in other batches and one of them
twice. -/
theorem addBatches_any_order_sample :
    let x := CompilationUnit.ofSource "a.cs" "x"
    let y := CompilationUnit.ofSource "a.cs" "y"
    let z := CompilationUnit.ofSource "b.cs" "z"
    let bare := CompilationUnit.ofFile "b.cs"
    let batches := [[x, bare], [y, z]]
    let others := [[z, y], [], [x, bare, x]]
    let sources := (empty.addBatches batches).1
    sources.text? "b.cs" = some "z" ∧
      sources.standing "a.cs" = .ambiguous ∧
      (sources.addBatches [[x]]).1.text? "a.cs" = none ∧
      (empty.addBatches batches).2.count (.ambiguousSource "a.cs") = 1 ∧
      (∀ u, u ∈ batches.flatten ↔ u ∈ others.flatten) ∧
      ∀ d, (Reporter.mk true sources).diagnostic d =
        (Reporter.mk true (empty.addBatches others).1).diagnostic d := by
  intro x y z bare batches others sources
  obtain ⟨htext, hambiguous, hstays, hwarned, -, hreports⟩ := addBatches_any_order batches
  have hsame : ∀ u, u ∈ batches.flatten ↔ u ∈ others.flatten := by
    intro u
    simp only [batches, others, List.flatten_cons, List.flatten_nil, List.mem_append,
      List.mem_cons, List.not_mem_nil]
    tauto
  have ha : sources.standing "a.cs" = .ambiguous :=
    (hambiguous "a.cs").2 ⟨"x", "y", ⟨x, by simp [batches], rfl, rfl⟩,
      ⟨y, by simp [batches], rfl, rfl⟩, by decide⟩
  refine ⟨(htext "b.cs" "z").2 ⟨⟨z, by simp [batches], rfl, rfl⟩, ?_⟩, ha,
    (hstays "a.cs" ha [[x]]).2, (hwarned "a.cs").trans (if_pos ha), hsame,
    (hreports others hsame true []).1⟩
  rintro text ⟨u, hu, hfile, hsource⟩
  simp only [batches, List.flatten_cons, List.flatten_nil, List.mem_append, List.mem_cons,
    List.not_mem_nil, or_false] at hu
  rcases hu with (rfl | rfl) | rfl | rfl
  · exact absurd hfile (by decide)
  · cases hsource
  · exact absurd hfile (by decide)
  · exact (Option.some.inj hsource).symm

end Sources

end OpLint
