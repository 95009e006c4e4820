import OpLint.Proofs.Report.Sources

/-!
# Which sources a location looks at

A location shows the display name of its file, and the source is looked up under that very
name. For a file that has a name this is its own source, and units of other files leave the
location as it is. A file without a name is displayed as `<unknown>`. It never finds a source
of its own; instead it is given positions in the text of a file that is really called so.

So what a location depends on are the units that bear the display name of its file, and no
others. Whether the units that bear other names than the file can make a difference is then
decided by two things: whether the file has a name, and whether `<unknown>` is ambiguous, in
which case no position can appear any more.
-/

namespace OpLint

namespace Sources

variable {s : Sources} {file : String}

theorem standing_addAll_of_ne {units : List CompilationUnit} (h : ∀ u ∈ units, u.file ≠ file) :
    (s.addAll units).1.standing file = s.standing file := by
  induction units generalizing s with
  | nil => rfl
  | cons u units ih =>
      rw [addAll_cons, ih fun v hv => h v (List.mem_cons_of_mem u hv), standing_add]
      cases u.source with
      | none => rfl
      | some text => exact if_neg (Ne.symm (h u List.mem_cons_self))

end Sources

namespace Reporter

variable {r : Reporter} {file source : String} {offset : UInt32}

/-- The reporter after it has taken in the sources of units. -/
def addSources (r : Reporter) (units : List CompilationUnit) : Reporter :=
  { r with sources := (r.sources.addAll units).1 }

/-! ## Locations with and without a position -/

theorem displayName_eq_self (h : file ≠ "") : displayName file = file := by
  rw [displayName, if_neg (mt String.isEmpty_iff.1 h)]

/-- A name with a position in a source behind it, lines and characters counted from one. -/
def placed (name source : String) (offset : UInt32) : String :=
  let position := (Text.LineTable.ofText source).position offset.toNat source
  s!"{name}({position.line + 1},{position.character + 1})"

theorem placed_ne (name source : String) (offset : UInt32) : placed name source offset ≠ name := by
  intro h
  have hlength := congrArg String.length h
  simp only [placed, String.length_append, toString] at hlength
  have : "(".length = 1 := by decide
  omega

theorem location_of_known (h : r.sources.standing (displayName file) = .known source) :
    r.location file offset = placed (displayName file) source offset := by
  rw [location, Sources.text?_eq_some_iff.2 h]
  rfl

theorem location_of_not_known
    (h : r.sources.standing (displayName file) = .absent ∨
      r.sources.standing (displayName file) = .ambiguous) :
    r.location file offset = displayName file := by
  rw [location, Sources.text?_eq_none h]

/-! ## Units of other files -/

theorem location_addSources_of_ne {units : List CompilationUnit}
    (h : ∀ u ∈ units, u.file ≠ displayName file) :
    (r.addSources units).location file offset = r.location file offset :=
  location_congr (Sources.text?_eq_of_standing_eq (Sources.standing_addAll_of_ne h)) offset

/-- One more unit called like the display name of a file shows in the file's locations, unless
that name is ambiguous. -/
theorem exists_location_ne (file : String) (offset : UInt32)
    (h : r.sources.standing (displayName file) ≠ .ambiguous) :
    ∃ u : CompilationUnit, u.file = displayName file ∧
      (r.addSources [u]).location file offset ≠ r.location file offset := by
  have hafter (text : String) :
      (r.addSources [.ofSource (displayName file) text]).sources.standing (displayName file) =
        (r.sources.standing (displayName file)).learn text := by
    rw [addSources, Sources.addAll_cons]
    exact (Sources.standing_add _ _ _).trans (if_pos rfl)
  cases hbefore : r.sources.standing (displayName file) with
  | absent =>
      refine ⟨.ofSource (displayName file) "", rfl, ?_⟩
      rw [location_of_known ((hafter "").trans (by rw [hbefore]; rfl)),
        location_of_not_known (Or.inl hbefore)]
      exact placed_ne _ _ _
  | known text =>
      -- a longer text differs from the one that is known
      have hne : text ≠ text ++ "\n" := by
        intro heq
        have hlength := congrArg String.length heq
        rw [String.length_append, show "\n".length = 1 by decide] at hlength
        omega
      refine ⟨.ofSource (displayName file) (text ++ "\n"), rfl, ?_⟩
      have hambiguous := hafter (text ++ "\n")
      rw [hbefore, Standing.learn, if_neg hne] at hambiguous
      rw [location_of_not_known (Or.inr hambiguous), location_of_known hbefore]
      exact (placed_ne _ _ _).symm
  | ambiguous => exact absurd hbefore h

theorem location_addSources_of_ambiguous (units : List CompilationUnit)
    (h : r.sources.standing (displayName file) = .ambiguous) :
    (r.addSources units).location file offset = r.location file offset := by
  have hafter : (r.addSources units).sources.standing (displayName file) = .ambiguous :=
    Sources.ambiguous_addAll h units
  rw [location_of_not_known (Or.inr hafter), location_of_not_known (Or.inr h)]

/-- Units of other files leave the locations in a file as they are if and only if the file has
a name, or no position can be shown for `<unknown>` any more. Units that do not bear a
display name leave whole diagnostics as they are, and a position that is shown is one in the
source of a unit that bears the display name. -/
theorem location_of_displayName (r : Reporter) (file : String) (offset : UInt32) :
    ((∀ units : List CompilationUnit, (∀ u ∈ units, u.file ≠ file) →
        (r.addSources units).location file offset = r.location file offset) ↔
      file ≠ "" ∨ r.sources.standing "<unknown>" = .ambiguous) ∧
    (∀ (d : Diagnostic) (units : List CompilationUnit),
      (∀ u ∈ units, ∀ f ∈ d.file :: d.related.map Related.file, u.file ≠ displayName f) →
        (r.addSources units).diagnostic d = r.diagnostic d) ∧
    ∀ (color : Bool) (batches : List (List CompilationUnit)),
      let r' : Reporter := ⟨color, (Sources.empty.addBatches batches).1⟩
      r'.location file offset = displayName file ∨
        ∃ u ∈ batches.flatten, u.file = displayName file ∧ ∃ source, u.source = some source ∧
          r'.location file offset = placed (displayName file) source offset := by
  refine ⟨⟨fun h => ?_, ?_⟩, fun d units h => ?_, fun color batches => ?_⟩
  · by_contra hnot
    obtain ⟨hempty, hambiguous⟩ := not_or.1 hnot
    obtain rfl := not_not.1 hempty
    obtain ⟨u, hu, hne⟩ := exists_location_ne "" offset hambiguous
    refine hne (h [u] fun v hv => ?_)
    rw [List.mem_singleton.1 hv, hu]
    decide
  · rintro (hfile | hambiguous) units hunits
    · exact location_addSources_of_ne (by rwa [displayName_eq_self hfile])
    · by_cases hfile : file = ""
      · subst hfile
        exact location_addSources_of_ambiguous units hambiguous
      · exact location_addSources_of_ne (by rwa [displayName_eq_self hfile])
  · refine diagnostic_congr rfl fun f hf => ?_
    exact Sources.text?_eq_of_standing_eq
      (Sources.standing_addAll_of_ne fun u hu => h u hu f hf)
  · intro r'
    have hfits := Sources.fits_addAll_empty batches.flatten (displayName file)
    rw [← Sources.addBatches_eq_addAll] at hfits
    cases hstanding : r'.sources.standing (displayName file) with
    | known source =>
        obtain ⟨⟨u, hu, hname, hsource⟩, -⟩ := hfits.eq_known_iff.1 hstanding
        exact Or.inr ⟨u, hu, hname, source, hsource, location_of_known hstanding⟩
    | absent => exact Or.inl (location_of_not_known (Or.inl hstanding))
    | ambiguous => exact Or.inl (location_of_not_known (Or.inr hstanding))

/-- A unit called `<unknown>` is nothing to a file with a name, which keeps its own position,
but it is for a file without one. -/
theorem location_of_displayName_sample :
    let own := CompilationUnit.ofSource "a.cs" "x\ny\n"
    let other := CompilationUnit.ofSource "<unknown>" "z"
    let r : Reporter := ⟨false, (Sources.empty.addBatches [[own]]).1⟩
    (∀ u ∈ [other], u.file ≠ "a.cs") ∧
      (r.addSources [other]).location "a.cs" 2 = r.location "a.cs" 2 ∧
      (∃ u ∈ [own], u.file = "a.cs" ∧ ∃ source, u.source = some source ∧
        r.location "a.cs" 2 = placed "a.cs" source 2) ∧
      r.location "a.cs" 2 = "a.cs(2,1)" ∧
      ¬ ∀ units : List CompilationUnit, (∀ u ∈ units, u.file ≠ "") →
        (r.addSources units).location "" 2 = r.location "" 2 := by
  intro own other r
  obtain ⟨hunits, -, hshown⟩ := location_of_displayName r "a.cs" 2
  have hother : ∀ u ∈ [other], u.file ≠ "a.cs" := by decide
  refine ⟨hother, hunits.2 (Or.inl (by decide)) [other] hother,
    (hshown false [[own]]).resolve_left (by decide), by decide, fun h => ?_⟩
  rcases (location_of_displayName r "" 2).1.1 h with hempty | hambiguous
  · exact hempty rfl
  · revert hambiguous
    decide

theorem location_of_nameless_file :
    ¬ ∀ (r : Reporter) (file : String) (offset : UInt32) (units : List CompilationUnit),
      (∀ u ∈ units, u.file ≠ file) →
        (r.addSources units).location file offset = r.location file offset := by
  intro h
  have := h ⟨false, .empty⟩ "" 2
    [.ofSource "<unknown>" "x\ny\n"] (by decide)
  revert this
  decide

end Reporter

end OpLint
