import OpLint.Command.Inputs
import OpLint.Proofs.Ascending
import OpLint.Proofs.File.Path
import OpLint.Proofs.File.Tree
import OpLint.Proofs.Verdict

/-!
# The inputs of a run are a sorted set

Each input stands for files: for itself, or for what a search finds below it. What they stand
for together is sorted and freed from repetitions, so that as a list of paths it only depends on
which files these are. Hence inputs may be given in any order, and more than once, and a
directory beside what is in it.

An input that is neither a file nor a directory ends the collection. So does a search that
cannot enter some directory, which is set apart: `Readable` says that it does not happen.
-/

namespace OpLint

namespace UnitFile

variable {fs : FileSystem} {p cwd : Path} {f : UnitFile} {files : List UnitFile}

/-- Whether a file or a directory is found at a path. -/
def Found (fs : FileSystem) (p : Path) : Prop :=
  (∃ content, fs p = .ok (.file content)) ∨ ∃ entries, fs p = .ok (.directory entries)

/-- Whether a search from a path can enter all directories below it. -/
def Readable (fs : FileSystem) (p : Path) : Prop :=
  ∀ entries, fs p = .ok (.directory entries) → ∀ names below, names ≠ [] →
    (Entry.directory entries).Reaches names (.directory below) →
      FileSystem.refusal? (p.descend names) = none

/-- What an input stands for: itself if it is a file, and if it is a directory the files below
it that end in `.json` and are not called like the options. -/
inductive StandsFor (fs : FileSystem) (p : Path) : UnitFile → Prop
  | named {content : ByteArray} : fs p = .ok (.file content) → StandsFor fs p ⟨p, content⟩
  | below {entries : List (String × Entry)} {names : List String} {stem : String}
      {content : ByteArray} :
    fs p = .ok (.directory entries) →
    (Entry.directory entries).Reaches (names ++ [stem ++ ".json"]) (.file content) →
    stem ≠ "" → stem ++ ".json" ≠ configName →
      StandsFor fs p ⟨p.descend (names ++ [stem ++ ".json"]), content⟩

/-! ## One input -/

theorem isUnitName_iff {name : String} :
    isUnitName name ↔ (∃ stem, stem ≠ "" ∧ name = stem ++ ".json") ∧ name ≠ configName := by
  have hjson (stem : String) : stem ++ "." ++ "json" = stem ++ ".json" := by
    rw [String.append_assoc]
    rfl
  rw [isUnitName, Bool.and_eq_true, decide_eq_true_eq, decide_eq_true_eq,
    Path.extension?_eq_some_iff (by decide)]
  simp only [hjson]

theorem impasse?_eq_none_iff {entries : List (String × Entry)} :
    FileSystem.impasse? p entries = none ↔
      ∀ d ∈ Entry.directoriesIn p entries, FileSystem.refusal? d = none := by
  rw [FileSystem.impasse?, List.head?_eq_none_iff]
  rw [← List.length_eq_zero_iff, List.length_mergeSort, List.length_eq_zero_iff,
    List.filterMap_eq_nil_iff]
  simp only [Option.map_eq_none_iff]

theorem readable_iff {entries : List (String × Entry)} (h : fs p = .ok (.directory entries)) :
    Readable fs p ↔ FileSystem.impasse? p entries = none := by
  rw [impasse?_eq_none_iff]
  simp only [Readable, h, Except.ok.injEq, Entry.directory.injEq, forall_eq',
    Entry.mem_directoriesIn]
  constructor
  · rintro hread _ ⟨x, hx, rest, below, hrest, rfl⟩
    exact hread _ below (List.cons_ne_nil _ _) (.step hx hrest)
  · intro hread names below hnames hreaches
    rcases Entry.reaches_directory_iff.1 hreaches with ⟨rfl, -⟩ | ⟨x, hx, rest, rfl, hrest⟩
    · exact absurd rfl hnames
    · exact hread _ ⟨x, hx, rest, below, hrest, rfl⟩

theorem ofInput_file {content : ByteArray} (h : fs p = .ok (.file content)) :
    ofInput fs p = .ok [⟨p, content⟩] := by
  rw [ofInput, h]
  rfl

theorem ofInput_directory {entries : List (String × Entry)}
    (h : fs p = .ok (.directory entries)) (hread : Readable fs p) :
    ofInput fs p = .ok (((Entry.filesIn p entries).filter fun (_, name, _) => isUnitName name).map
      fun (path, _, content) => ⟨path, content⟩) := by
  rw [ofInput, h]
  simp only [(readable_iff h).1 hread]
  rfl

theorem ofInput_not_found (h : ¬ Found fs p) : ofInput fs p = .error (.inputNotFound p) := by
  rw [ofInput]
  split
  · next content hp => exact absurd (Or.inl ⟨content, hp⟩) h
  · next entries hp => exact absurd (Or.inr ⟨entries, hp⟩) h
  · rfl
  · rfl

theorem ofInput_not_readable (h : ¬ Readable fs p) : ∃ cause, ofInput fs p = .error cause := by
  obtain ⟨entries, hp⟩ : ∃ entries, fs p = .ok (.directory entries) := by
    by_contra hnone
    exact h fun entries hp => absurd ⟨entries, hp⟩ hnone
  rw [readable_iff hp] at h
  obtain ⟨⟨place, cause⟩, hstop⟩ := Option.ne_none_iff_exists'.1 h
  refine ⟨.searchStopped p place cause, ?_⟩
  rw [ofInput, hp]
  simp only [hstop]
  rfl

theorem exists_ofInput_eq_ok_iff :
    (∃ files, ofInput fs p = .ok files) ↔ Found fs p ∧ Readable fs p := by
  constructor
  · rintro ⟨files, h⟩
    constructor
    · by_contra hfound
      rw [ofInput_not_found hfound] at h
      cases h
    · by_contra hread
      obtain ⟨cause, herror⟩ := ofInput_not_readable hread
      rw [herror] at h
      cases h
  · rintro ⟨⟨content, hp⟩ | ⟨entries, hp⟩, hread⟩
    · exact ⟨_, ofInput_file hp⟩
    · exact ⟨_, ofInput_directory hp hread⟩

theorem ofInput_eq_error_iff (hread : Readable fs p) {cause : Failure} :
    ofInput fs p = .error cause ↔ ¬ Found fs p ∧ cause = .inputNotFound p := by
  constructor
  · intro h
    have hfound : ¬ Found fs p := fun hfound => by
      obtain ⟨files, hfiles⟩ := exists_ofInput_eq_ok_iff.2 ⟨hfound, hread⟩
      rw [hfiles] at h
      cases h
    rw [ofInput_not_found hfound] at h
    exact ⟨hfound, (Except.error.inj h).symm⟩
  · rintro ⟨hfound, rfl⟩
    exact ofInput_not_found hfound

/-- An input gives the files that it stands for. -/
theorem mem_ofInput_iff (h : ofInput fs p = .ok files) : f ∈ files ↔ StandsFor fs p f := by
  obtain ⟨⟨content, hp⟩ | ⟨entries, hp⟩, hread⟩ := exists_ofInput_eq_ok_iff.1 ⟨files, h⟩
  · rw [ofInput_file hp] at h
    obtain rfl := Except.ok.inj h
    rw [List.mem_singleton]
    constructor
    · rintro rfl
      exact .named hp
    · rintro (hp' | hp')
      · rw [hp] at hp'
        cases hp'
        rfl
      · rw [hp] at hp'
        cases hp'
  · rw [ofInput_directory hp hread] at h
    obtain rfl := Except.ok.inj h
    simp only [List.mem_map, List.mem_filter, Entry.mem_filesIn_iff, isUnitName_iff]
    constructor
    · rintro ⟨_, ⟨⟨names, _, content, hreaches, rfl⟩, ⟨stem, hstem, rfl⟩, hname⟩, rfl⟩
      exact .below hp hreaches hstem hname
    · rintro (hp' | ⟨hp', hreaches, hstem, hname⟩)
      · rw [hp] at hp'
        cases hp'
      · rw [hp] at hp'
        cases hp'
        exact ⟨_, ⟨⟨_, _, _, hreaches, rfl⟩, ⟨_, hstem, rfl⟩, hname⟩, rfl⟩

/-! ## Sorting and dropping repetitions -/

theorem pairwise_sort (files : List UnitFile) :
    (sort files).Pairwise fun f g => (f.path.order g.path).isLE :=
  pairwise_mergeSort Path.orderComponents (fun f : UnitFile => f.path.components) files

theorem mem_sort : f ∈ sort files ↔ f ∈ files :=
  (List.mergeSort_perm files _).mem_iff

theorem mem_of_mem_dropRepeats (h : f ∈ dropRepeats files) : f ∈ files := by
  fun_induction dropRepeats files with
  | case1 => cases h
  | case2 g => exact h
  | case3 g g' files hsame ih =>
      rcases List.mem_cons.1 (ih h) with rfl | h
      · exact List.mem_cons_self
      · exact List.mem_cons_of_mem _ (List.mem_cons_of_mem _ h)
  | case4 g g' files hsame ih =>
      rcases List.mem_cons.1 h with rfl | h
      · exact List.mem_cons_self
      · exact List.mem_cons_of_mem _ (ih h)

/-- The file that is kept is called the same. -/
theorem exists_mem_dropRepeats (h : f ∈ files) :
    ∃ g ∈ dropRepeats files, g.path.components = f.path.components := by
  fun_induction dropRepeats files generalizing f with
  | case1 => cases h
  | case2 g => exact ⟨f, h, rfl⟩
  | case3 g g' files hsame ih =>
      rcases List.mem_cons.1 h with rfl | h
      · exact ih List.mem_cons_self
      · rcases List.mem_cons.1 h with rfl | h
        · -- the file that is left out is the same as the first one
          obtain ⟨k, hk, heq⟩ := ih (f := g) List.mem_cons_self
          exact ⟨k, hk, heq.trans (Path.same_iff.1 hsame)⟩
        · exact ih (List.mem_cons_of_mem _ h)
  | case4 g g' files hsame ih =>
      rcases List.mem_cons.1 h with rfl | h
      · exact ⟨f, List.mem_cons_self, rfl⟩
      · obtain ⟨k, hk, heq⟩ := ih h
        exact ⟨k, List.mem_cons_of_mem _ hk, heq⟩

/-- Among sorted files the same ones stand side by side. -/
theorem pairwise_dropRepeats (h : files.Pairwise fun f g => (f.path.order g.path).isLE) :
    (dropRepeats files).Pairwise fun f g => f.path.order g.path = .lt := by
  fun_induction dropRepeats files with
  | case1 => exact .nil
  | case2 g => exact List.pairwise_singleton _ _
  | case3 g g' files hsame ih =>
      obtain ⟨hfirst, hrest⟩ := List.pairwise_cons.1 h
      exact ih (List.pairwise_cons.2
        ⟨fun k hk => hfirst k (List.mem_cons_of_mem _ hk), (List.pairwise_cons.1 hrest).2⟩)
  | case4 g g' files hsame ih =>
      obtain ⟨hfirst, hrest⟩ := List.pairwise_cons.1 h
      have hlt : g.path.order g'.path = .lt :=
        Path.order_eq_lt_of_isLE (hfirst g' List.mem_cons_self) (mt Path.same_iff.2 hsame)
      refine List.pairwise_cons.2 ⟨fun k hk => ?_, ih hrest⟩
      rcases List.mem_cons.1 (mem_of_mem_dropRepeats hk) with rfl | hk
      · exact hlt
      · exact Path.order_lt_of_lt_of_isLE hlt ((List.pairwise_cons.1 hrest).1 k hk)

/-! ## All inputs -/

/-- What inputs stand for together. -/
def StandFor (fs : FileSystem) (places : List Path) (f : UnitFile) : Prop :=
  ∃ p ∈ places, StandsFor fs p f

theorem collect_eq_ok_iff {inputs : List Path} :
    collect fs cwd inputs = .ok files ↔
      ∃ lists, (places cwd inputs).mapM (ofInput fs) = .ok lists ∧
        files = dropRepeats (sort lists.flatten) := by
  rw [collect, bind_eq_ok_iff]
  refine exists_congr fun lists => and_congr_right fun _ => ?_
  show Except.ok _ = Except.ok files ↔ _
  rw [Except.ok.injEq, eq_comm]

theorem collect_eq_error_iff {inputs : List Path} {cause : Failure} :
    collect fs cwd inputs = .error cause ↔
      (places cwd inputs).mapM (ofInput fs) = .error cause := by
  rw [collect]
  cases (places cwd inputs).mapM (ofInput fs) with
  | error e =>
      show Except.error e = Except.error cause ↔ _
      rw [Except.error.injEq, Except.error.injEq]
  | ok lists => exact iff_of_false nofun nofun

/-- The collection succeeds if every input is found and can be searched. -/
theorem exists_collect_eq_ok_iff {inputs : List Path} :
    (∃ files, collect fs cwd inputs = .ok files) ↔
      ∀ p ∈ places cwd inputs, Found fs p ∧ Readable fs p := by
  constructor
  · rintro ⟨files, h⟩ p hp
    obtain ⟨lists, hlists, -⟩ := collect_eq_ok_iff.1 h
    rw [mapM_eq_ok_iff] at hlists
    have hmem : ofInput fs p ∈ lists.map Except.ok := hlists ▸ List.mem_map_of_mem hp
    obtain ⟨files, -, hfiles⟩ := List.mem_map.1 hmem
    exact exists_ofInput_eq_ok_iff.1 ⟨files, hfiles.symm⟩
  · intro h
    cases hcollect : collect fs cwd inputs with
    | ok files => exact ⟨files, rfl⟩
    | error cause =>
        obtain ⟨before, p, after, hplaces, -, hp⟩ :=
          mapM_eq_error_iff.1 (collect_eq_error_iff.1 hcollect)
        obtain ⟨files, hfiles⟩ := exists_ofInput_eq_ok_iff.2 (h p (by rw [hplaces]; simp))
        rw [hfiles] at hp
        cases hp

theorem mem_flatten_of_mapM {ps : List Path} {lists : List (List UnitFile)}
    (h : ps.mapM (ofInput fs) = .ok lists) : f ∈ lists.flatten ↔ StandFor fs ps f := by
  rw [mapM_eq_ok_iff] at h
  rw [List.mem_flatten]
  constructor
  · rintro ⟨files, hfiles, hf⟩
    have hmem : Except.ok files ∈ ps.map (ofInput fs) := h ▸ List.mem_map_of_mem hfiles
    obtain ⟨p, hp, hok⟩ := List.mem_map.1 hmem
    exact ⟨p, hp, (mem_ofInput_iff hok).1 hf⟩
  · rintro ⟨p, hp, hf⟩
    have hmem : ofInput fs p ∈ lists.map Except.ok := h ▸ List.mem_map_of_mem hp
    obtain ⟨files, hfiles, hok⟩ := List.mem_map.1 hmem
    exact ⟨files, hfiles, (mem_ofInput_iff hok.symm).2 hf⟩

theorem mem_map_components_iff {inputs : List Path} (h : collect fs cwd inputs = .ok files)
    {components : List Component} :
    components ∈ files.map (·.path.components) ↔
      ∃ f, StandFor fs (places cwd inputs) f ∧ f.path.components = components := by
  obtain ⟨lists, hlists, rfl⟩ := collect_eq_ok_iff.1 h
  rw [List.mem_map]
  constructor
  · rintro ⟨f, hf, heq⟩
    exact ⟨f, (mem_flatten_of_mapM hlists).1 (mem_sort.1 (mem_of_mem_dropRepeats hf)), heq⟩
  · rintro ⟨f, hf, heq⟩
    obtain ⟨g, hg, hsame⟩ :=
      exists_mem_dropRepeats (mem_sort.2 ((mem_flatten_of_mapM hlists).2 hf))
    exact ⟨g, hg, hsame.trans heq⟩

theorem pairwise_collect {inputs : List Path} (h : collect fs cwd inputs = .ok files) :
    files.Pairwise fun f g => f.path.order g.path = .lt := by
  obtain ⟨lists, -, rfl⟩ := collect_eq_ok_iff.1 h
  exact pairwise_dropRepeats (pairwise_sort _)

theorem mem_places_congr {inputs others : List Path} (h : ∀ p, p ∈ others ↔ p ∈ inputs) :
    p ∈ places cwd others ↔ p ∈ places cwd inputs := by
  have hempty : others.isEmpty = inputs.isEmpty := by
    rw [Bool.eq_iff_iff, List.isEmpty_iff, List.isEmpty_iff, List.eq_nil_iff_forall_not_mem,
      List.eq_nil_iff_forall_not_mem]
    simp only [h]
  simp only [places, List.mem_map, hempty]
  split
  · rfl
  · simp only [h]

/-- The collection gives a sorted set. It succeeds if all inputs are found and can be searched;
where all can be searched it fails with the first that is not found. Its files are in strictly
ascending order, each of them is one that the inputs stand for, and each of those is there under
some spelling of its path. The order of the inputs and their repetitions do not matter, and
without inputs the working directory is one. -/
theorem collect_sorted_set (fs : FileSystem) (cwd : Path) (inputs : List Path) :
    (collect fs cwd [] = collect fs cwd [cwd] ∧ (cwd.isAbsolute → places cwd [] = [cwd])) ∧
    ((∃ files, collect fs cwd inputs = .ok files) ↔
      ∀ p ∈ places cwd inputs, Found fs p ∧ Readable fs p) ∧
    ((∀ p ∈ places cwd inputs, Readable fs p) → ∀ cause,
      collect fs cwd inputs = .error cause ↔
        ∃ before p after, places cwd inputs = before ++ p :: after ∧
          (∀ q ∈ before, Found fs q) ∧ ¬ Found fs p ∧ cause = .inputNotFound p) ∧
    ∀ files, collect fs cwd inputs = .ok files →
      files.Pairwise (fun f g => f.path.order g.path = .lt) ∧
      (∀ f ∈ files, StandFor fs (places cwd inputs) f) ∧
      (∀ f, StandFor fs (places cwd inputs) f → ∃ g ∈ files, g.path.same f.path) ∧
      ∀ others : List Path, (∀ p, p ∈ others ↔ p ∈ inputs) →
        ∃ files', collect fs cwd others = .ok files' ∧
          files'.map (·.path.components) = files.map (·.path.components) := by
  refine ⟨⟨rfl, fun habsolute => ?_⟩, exists_collect_eq_ok_iff, fun hread cause => ?_,
    fun files h => ⟨pairwise_collect h, fun f hf => ?_, fun f hf => ?_, fun others hothers => ?_⟩⟩
  · show [cwd.join cwd] = [cwd]
    rw [Path.join_of_isAbsolute habsolute]
  · rw [collect_eq_error_iff, mapM_eq_error_iff]
    refine exists_congr fun before => exists_congr fun p => exists_congr fun after =>
      and_congr_right fun hplaces => and_congr ?_ ?_
    · refine forall₂_congr fun q hq => ?_
      rw [exists_ofInput_eq_ok_iff]
      exact and_iff_left (hread q (by rw [hplaces]; exact List.mem_append_left _ hq))
    · exact ofInput_eq_error_iff (hread p (by rw [hplaces]; simp))
  · obtain ⟨lists, hlists, rfl⟩ := collect_eq_ok_iff.1 h
    exact (mem_flatten_of_mapM hlists).1 (mem_sort.1 (mem_of_mem_dropRepeats hf))
  · obtain ⟨g, hg, heq⟩ := List.mem_map.1 ((mem_map_components_iff h).2 ⟨f, hf, rfl⟩)
    exact ⟨g, hg, Path.same_iff.2 heq⟩
  · obtain ⟨files', h'⟩ : ∃ files', collect fs cwd others = .ok files' := by
      rw [exists_collect_eq_ok_iff]
      intro p hp
      exact exists_collect_eq_ok_iff.1 ⟨files, h⟩ p ((mem_places_congr hothers).1 hp)
    refine ⟨files', h', eq_of_mem_iff_of_pairwise_lt (List.pairwise_map.2 (pairwise_collect h'))
      (List.pairwise_map.2 (pairwise_collect h)) fun components => ?_⟩
    rw [mem_map_components_iff h', mem_map_components_iff h]
    simp only [StandFor, mem_places_congr hothers]

theorem readable_of_file {content : ByteArray} (h : fs p = .ok (.file content)) : Readable fs p :=
  fun entries hp => by
    rw [h] at hp
    cases hp

/-- A directory given twice, beside a file in it under another spelling, then the same inputs in
another order; and an input that is missing behind one that is there. -/
theorem collect_sorted_set_sample :
    let below : List (String × Entry) :=
      [("b.json", .file .empty), ("e", .directory [("c.json", .file .empty)])]
    let fs := FileSystem.ofRoot
      (.directory [("w", .directory [("x.txt", .file .empty), ("d", .directory below)])])
    let inputs : List Path := [⟨"x.txt"⟩, ⟨"d"⟩, ⟨"./d/b.json"⟩, ⟨"d"⟩]
    let others : List Path := [⟨"./d/b.json"⟩, ⟨"d"⟩, ⟨"x.txt"⟩]
    ((Path.mk "/w").isAbsolute ∧ places ⟨"/w"⟩ [] = [⟨"/w"⟩]) ∧
      (∀ p ∈ places ⟨"/w"⟩ inputs, Found fs p ∧ Readable fs p) ∧
      (∃ files, collect fs ⟨"/w"⟩ inputs = .ok files ∧
        files.Pairwise (fun f g => f.path.order g.path = .lt) ∧
        (∀ p, p ∈ others ↔ p ∈ inputs) ∧
        ∃ files', collect fs ⟨"/w"⟩ others = .ok files' ∧
          files'.map (·.path.components) = files.map (·.path.components)) ∧
      (∀ p ∈ places ⟨"/w"⟩ [⟨"x.txt"⟩, ⟨"y"⟩], Readable fs p) ∧
      collect fs ⟨"/w"⟩ [⟨"x.txt"⟩, ⟨"y"⟩] = .error (.inputNotFound ⟨"/w/y"⟩) := by
  intro below fs inputs others
  have habsolute : (Path.mk "/w").isAbsolute := by decide +kernel
  have hplaces : places ⟨"/w"⟩ inputs =
      [⟨"/w/x.txt"⟩, ⟨"/w/d"⟩, ⟨"/w/./d/b.json"⟩, ⟨"/w/d"⟩] := by decide +kernel
  have hmissing : places ⟨"/w"⟩ [⟨"x.txt"⟩, ⟨"y"⟩] = [⟨"/w/x.txt"⟩, ⟨"/w/y"⟩] := by decide +kernel
  have hx : fs ⟨"/w/x.txt"⟩ = .ok (.file .empty) := rfl
  have hb : fs ⟨"/w/./d/b.json"⟩ = .ok (.file .empty) := rfl
  have hd : fs ⟨"/w/d"⟩ = .ok (.directory below) := rfl
  have hy : fs ⟨"/w/y"⟩ = .error .notFound := rfl
  have hread : Readable fs ⟨"/w/d"⟩ := by
    rw [readable_iff hd, impasse?_eq_none_iff,
      show Entry.directoriesIn ⟨"/w/d"⟩ below = [⟨"/w/d/e"⟩] by decide +kernel]
    decide
  have hall : ∀ p ∈ places ⟨"/w"⟩ inputs, Found fs p ∧ Readable fs p := by
    rw [hplaces]
    simp only [List.forall_mem_cons]
    exact ⟨⟨Or.inl ⟨_, hx⟩, readable_of_file hx⟩, ⟨Or.inr ⟨_, hd⟩, hread⟩,
      ⟨Or.inl ⟨_, hb⟩, readable_of_file hb⟩, ⟨Or.inr ⟨_, hd⟩, hread⟩, List.forall_mem_nil _⟩
  have hothers : ∀ p, p ∈ others ↔ p ∈ inputs := by
    intro p
    simp only [others, inputs, List.mem_cons, List.not_mem_nil]
    tauto
  have hrest : ∀ p ∈ places ⟨"/w"⟩ [⟨"x.txt"⟩, ⟨"y"⟩], Readable fs p := by
    rw [hmissing]
    simp only [List.forall_mem_cons]
    refine ⟨readable_of_file hx, fun entries h => ?_, List.forall_mem_nil _⟩
    cases hy.symm.trans h
  obtain ⟨⟨-, hempty⟩, hsucceeds, -, hfiles⟩ := collect_sorted_set fs ⟨"/w"⟩ inputs
  obtain ⟨-, -, hfails, -⟩ := collect_sorted_set fs ⟨"/w"⟩ [⟨"x.txt"⟩, ⟨"y"⟩]
  obtain ⟨files, h⟩ := hsucceeds.2 hall
  obtain ⟨hascending, -, -, hsame⟩ := hfiles files h
  refine ⟨⟨habsolute, hempty habsolute⟩, hall,
    ⟨files, h, hascending, hothers, hsame others hothers⟩, hrest, (hfails hrest _).2 ?_⟩
  refine ⟨[⟨"/w/x.txt"⟩], ⟨"/w/y"⟩, [], hmissing, ?_, ?_, rfl⟩
  · rw [List.forall_mem_singleton]
    exact Or.inl ⟨_, hx⟩
  · rintro (⟨_, h⟩ | ⟨_, h⟩) <;> cases hy.symm.trans h

end UnitFile

end OpLint
