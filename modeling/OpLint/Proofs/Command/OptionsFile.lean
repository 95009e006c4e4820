import OpLint.Command.Session
import OpLint.Proofs.Command.Inputs
import OpLint.Proofs.File.Place

/-!
# The options file among the inputs

The file with the options is found by its path, and the unit files are found by a search that
knows nothing of that path. What keeps them apart is a name: a search passes over every file
that is called like the options of a directory, and over every file that does not end in `.json`.
So options that are named outright, and called otherwise, are taken for a unit as soon as they lie
below an input. So are those of the working directory if they are a link to such a file, for
a link is followed to the options and no search goes by it.

Files are told apart by their places, not by how a path to them is written or which links it goes
through. A place is in reach of a search if it goes on from where the search starts and ends in
the name of a unit.
-/

namespace OpLint

namespace UnitFile

variable {m : Machine} {p p' q cwd : Path} {f : UnitFile} {files : List UnitFile}
  {inputs : List Path}

/-- Whether a search from `q` comes by the place of `p` and takes it for that of a unit. -/
def InReach (m : Machine) (q p : Path) : Prop :=
  ∃ start names stem, m.place? q = some start ∧
    m.place? p = some (start ++ (names ++ [stem ++ ".json"])) ∧ stem ≠ "" ∧
    stem ++ ".json" ≠ configName

/-- Whether one of several searches does. -/
def Reached (m : Machine) (places : List Path) (p : Path) : Prop :=
  ∃ q ∈ places, InReach m q p

/-- Whether a file is among others, under any path that leads there. -/
def Gathered (m : Machine) (files : List UnitFile) (p : Path) : Prop :=
  ∃ f ∈ files, m.SamePlace f.path p

theorem InReach.place?_ne (h : InReach m q p) (names : List String) :
    m.place? p ≠ some (names ++ [configName]) := by
  obtain ⟨start, below, stem, -, hplace, -, hname⟩ := h
  rw [hplace, ← List.append_assoc]
  exact fun heq => hname (List.append_singleton_inj.1 (Option.some.inj heq)).2

theorem Reached.congr {ps : List Path} (hplace : m.SamePlace p p') (h : Reached m ps p) :
    Reached m ps p' := by
  obtain ⟨place, hp, hp'⟩ := hplace
  obtain ⟨q, hq, start, names, stem, hstart, hbelow, hname⟩ := h
  rw [hp] at hbelow
  exact ⟨q, hq, start, names, stem, hstart, hp'.trans hbelow, hname⟩

section Directory

variable (hm : m.Proper) {entries : List (String × Entry)}
  (hq : FileSystem.ofMachine m q = .ok (.directory entries))

include hm hq

/-- What a directory stands for is in its reach, and its path leads to the file. -/
theorem StandsFor.inReach (h : StandsFor (.ofMachine m) q f) :
    InReach m q f.path ∧ ∃ s, m.spot? f.path = some s ∧ s.entry = .file f.content := by
  obtain ⟨s, hs, hentries⟩ := Machine.spot?_of_ofMachine hq
  cases h with
  | named hfile =>
      rw [hq] at hfile
      cases hfile
  | below hq' hreaches hstem hname =>
      rw [hq] at hq'
      cases hq'
      obtain ⟨s', hs', hplace, hentry⟩ := hm.spot?_descend hs (hentries ▸ hreaches)
      have hend := (Machine.place?_eq hs').trans (congrArg some hplace)
      exact ⟨⟨s.place, _, _, Machine.place?_eq hs, hend, hstem, hname⟩, s', hs', hentry⟩

/-- A file in the reach of a directory is one that it stands for, under some path. -/
theorem exists_standsFor {content : ByteArray}
    (hp : FileSystem.ofMachine m p = .ok (.file content)) (h : InReach m q p) :
    ∃ f, StandsFor (.ofMachine m) q f ∧ m.SamePlace f.path p := by
  obtain ⟨start, names, stem, hstart, hplace, hstem, hname⟩ := h
  obtain ⟨s, hs, hentries⟩ := Machine.spot?_of_ofMachine hq
  obtain ⟨s', hs', hcontent⟩ := Machine.spot?_of_ofMachine hp
  rw [Machine.place?_eq hs, Option.some.injEq] at hstart
  have hat : s'.place = start ++ (names ++ [stem ++ ".json"]) :=
    Option.some.inj ((Machine.place?_eq hs').symm.trans hplace)
  have hfind := (Machine.holds_of_spot? hs').find?
  rw [hat, ← hstart, Entry.find?_append, (Machine.holds_of_spot? hs).find?, Option.bind_some,
    hentries, hcontent] at hfind
  have hreaches := Entry.reaches_of_find? hfind
  obtain ⟨s'', hs'', hbelow, -⟩ := hm.spot?_descend hs (hentries ▸ hreaches)
  refine ⟨_, .below hq hreaches hstem hname, _, ?_, hplace⟩
  rw [Machine.place?_eq hs'', hbelow, hstart]

end Directory

section Directories

variable (hm : m.Proper)
  (hinputs : ∀ q ∈ places cwd inputs, ∃ entries,
    FileSystem.ofMachine m q = .ok (.directory entries))
  (hfiles : collect (.ofMachine m) cwd inputs = .ok files)

include hm hinputs hfiles

theorem reached_of_mem (hf : f ∈ files) :
    Reached m (places cwd inputs) f.path ∧ ∃ s, m.spot? f.path = some s ∧
      s.entry = .file f.content := by
  obtain ⟨lists, hlists, rfl⟩ := collect_eq_ok_iff.1 hfiles
  obtain ⟨q, hq, hstands⟩ :=
    (mem_flatten_of_mapM hlists).1 (mem_sort.1 (mem_of_mem_dropRepeats hf))
  obtain ⟨entries, hentries⟩ := hinputs q hq
  obtain ⟨hreach, hspot⟩ := hstands.inReach hm hentries
  exact ⟨⟨q, hq, hreach⟩, hspot⟩

theorem reached_of_gathered (h : Gathered m files p) : Reached m (places cwd inputs) p := by
  obtain ⟨f, hf, hplace⟩ := h
  exact (reached_of_mem hm hinputs hfiles hf).1.congr hplace

/-- Among what can be opened, the files in the reach of the inputs are gathered. -/
theorem gathered_iff {e : Entry} (hp : FileSystem.ofMachine m p = .ok e) :
    Gathered m files p ↔
      (FileSystem.ofMachine m).isFile p ∧ Reached m (places cwd inputs) p := by
  obtain ⟨s, hs, hentry⟩ := Machine.spot?_of_ofMachine hp
  constructor
  · intro h
    refine ⟨?_, reached_of_gathered hm hinputs hfiles h⟩
    obtain ⟨f, hf, hplace⟩ := h
    obtain ⟨-, s', hs', hfile⟩ := reached_of_mem hm hinputs hfiles hf
    have hsame := hplace.entry_eq hs' hs
    rw [hfile, hentry] at hsame
    exact FileSystem.isFile_iff.2 ⟨f.content, hsame ▸ hp⟩
  · rintro ⟨hfile, q, hq, hreach⟩
    obtain ⟨content, hcontent⟩ := FileSystem.isFile_iff.1 hfile
    obtain ⟨entries, hentries⟩ := hinputs q hq
    obtain ⟨f, hstands, place, hplace, hconfig⟩ := exists_standsFor hm hentries hcontent hreach
    obtain ⟨g, hg, hsame⟩ :=
      List.mem_map.1 ((mem_map_components_iff hfiles).2 ⟨f, ⟨q, hq, hstands⟩, rfl⟩)
    refine ⟨g, hg, place, ?_, hconfig⟩
    rw [Machine.place?, Machine.spot?_eq_of_same (Path.same_iff.2 hsame)]
    exact hplace

end Directories

end UnitFile

/-- The unit file that a failure is about. -/
def Failure.unit? : Failure → Option Path
  | .unitUnreadable p _ | .unitInvalid p _ => some p
  | _ => none

namespace Session

variable {fs : FileSystem} {cwd p : Path} {args : Arguments} {o : Options} {e : Failure}
  {files : List UnitFile}

/-! ## Whom a run blames -/

theorem unit?_of_readOptions (h : readOptions fs p = .error e) : e.unit? = none := by
  rw [readOptions] at h
  split at h
  · obtain rfl := Except.error.inj h
    rfl
  · obtain ⟨cause, -, rfl⟩ := mapError_eq_error_iff.1 h
    rfl

theorem unit?_of_options {explicit : Option Path} (h : options fs cwd explicit = .error e) :
    e.unit? = none := by
  cases explicit with
  | some p => exact unit?_of_readOptions h
  | none =>
      by_cases hfile : fs.isFile (cwd.join ⟨configName⟩)
      · rw [options, if_pos hfile] at h
        exact unit?_of_readOptions h
      · rw [options, if_neg hfile] at h
        cases h

theorem unit?_of_collect {inputs : List Path} (h : UnitFile.collect fs cwd inputs = .error e) :
    e.unit? = none := by
  obtain ⟨_, q, _, _, -, hq⟩ := mapM_eq_error_iff.1 (UnitFile.collect_eq_error_iff.1 h)
  rw [UnitFile.ofInput] at hq
  split at hq
  · cases hq
  · split at hq
    · obtain rfl := Except.error.inj hq
      rfl
    · cases hq
  all_goals
    obtain rfl := Except.error.inj hq
    rfl

theorem unit?_of_readUnit {f : UnitFile} (h : readUnit f = .error e) : e.unit? = some f.path := by
  rw [readUnit] at h
  split at h
  · obtain rfl := Except.error.inj h
    rfl
  · obtain ⟨cause, -, rfl⟩ := mapError_eq_error_iff.1 h
    rfl

/-- The steps of a run: the options, their rule ids, the inputs, and the units in these. -/
theorem run_eq : run fs cwd args =
    options fs cwd args.config >>= fun o =>
      verdict ((o.unknownRuleId? Rule.builtIn).map .unknownRule) () >>= fun _ =>
        UnitFile.collect fs cwd args.inputs >>= fun files =>
          (files.mapM readUnit).map fun units =>
            ⟨units, (Analyzer.ofRules o Rule.builtIn).analyze false units⟩ := by
  rw [run]
  congr 1
  funext o
  cases o.unknownRuleId? Rule.builtIn <;> rfl

/-- A run that blames a unit file is one that gathered the file and could not read it. -/
theorem exists_of_run_eq_error (h : run fs cwd args = .error e) (hp : e.unit? = some p) :
    ∃ files, UnitFile.collect fs cwd args.inputs = .ok files ∧
      ∃ f ∈ files, f.path = p ∧ readUnit f = .error e := by
  simp only [run_eq, bind_eq_error_iff, map_eq_error_iff, verdict_eq_error_iff] at h
  obtain hoptions | ⟨o, -, hid | ⟨-, -, hinputs | ⟨files, hfiles, hread⟩⟩⟩ := h
  · rw [unit?_of_options hoptions] at hp
    cases hp
  · obtain ⟨id, -, rfl⟩ := Option.map_eq_some_iff.1 hid
    cases hp
  · rw [unit?_of_collect hinputs] at hp
    cases hp
  · obtain ⟨before, f, after, rfl, -, hf⟩ := mapM_eq_error_iff.1 hread
    rw [unit?_of_readUnit hf] at hp
    exact ⟨_, hfiles, f, by simp, Option.some.inj hp, hf⟩

/-! ## A machine with two options files in one directory -/

/-- A unit without anything in it. -/
def emptyUnit : String := "\x7b\"file\":\"a.cs\"\x7d"

/-- What settles nothing, and is no unit. -/
def noOptions : String := "\x7b\x7d"

/-- A unit, options as a directory keeps them, and others. -/
def mixed : List (String × Entry) :=
  [("a.json", .file emptyUnit.toUTF8), ("opcheck.json", .file noOptions.toUTF8),
    ("strict.json", .file noOptions.toUTF8)]

/-- The other options have a link beside them, and one from another directory, where it stands
for the options that are kept there. -/
def mixedMachine : Machine where
  root := .directory [("v", .directory []), ("w", .directory mixed)]
  links := [(["v", "opcheck.json"], ⟨"../w/strict.json"⟩), (["w", "current.json"], ⟨"strict.json"⟩)]

/-- What a search takes for units. -/
def mixedFiles : List UnitFile :=
  [⟨⟨"/w/a.json"⟩, emptyUnit.toUTF8⟩, ⟨⟨"/w/strict.json"⟩, noOptions.toUTF8⟩]

def mixedRun (inputs : List Path) (config : Option Path) : Arguments :=
  ⟨inputs, config, .text, false, none, false, false⟩

theorem proper_mixedMachine : mixedMachine.Proper where
  root := by
    simp only [mixedMachine, mixed, Entry.proper_directory_iff, List.forall_mem_cons,
      Entry.proper_file, List.not_mem_nil, false_imp_iff, implies_true, and_true, true_and]
    decide
  links := by
    simp only [mixedMachine, List.forall_mem_cons, List.not_mem_nil, false_imp_iff, implies_true,
      and_true]
    exact ⟨rfl, rfl⟩

theorem mixedMachine_directory :
    FileSystem.ofMachine mixedMachine ⟨"/w"⟩ = .ok (.directory mixed) := rfl

section Inputs

variable {inputs : List Path} (hplaces : UnitFile.places cwd inputs = [⟨"/w"⟩])

include hplaces

theorem exists_directory_mixed :
    ∀ q ∈ UnitFile.places cwd inputs, ∃ entries,
      FileSystem.ofMachine mixedMachine q = .ok (.directory entries) := by
  rw [hplaces, List.forall_mem_singleton]
  exact ⟨mixed, mixedMachine_directory⟩

theorem collect_mixed :
    UnitFile.collect (.ofMachine mixedMachine) cwd inputs = .ok mixedFiles := by
  have hread : UnitFile.Readable (.ofMachine mixedMachine) ⟨"/w"⟩ := by
    rw [UnitFile.readable_iff mixedMachine_directory, UnitFile.impasse?_eq_none_iff,
      show Entry.directoriesIn ⟨"/w"⟩ mixed = [] from rfl]
    exact List.forall_mem_nil _
  have hunits : ((Entry.filesIn ⟨"/w"⟩ mixed).filter fun x => isUnitName x.2.1) =
      [(⟨"/w/a.json"⟩, "a.json", emptyUnit.toUTF8),
        (⟨"/w/strict.json"⟩, "strict.json", noOptions.toUTF8)] := by decide +kernel
  have hinput : UnitFile.ofInput (.ofMachine mixedMachine) ⟨"/w"⟩ = .ok mixedFiles := by
    rw [UnitFile.ofInput_directory mixedMachine_directory hread]
    show Except.ok (((Entry.filesIn ⟨"/w"⟩ mixed).filter fun x => isUnitName x.2.1).map
      fun x => UnitFile.mk x.1 x.2.2) = _
    rw [hunits]
    rfl
  have hsorted : UnitFile.sort mixedFiles = mixedFiles :=
    List.mergeSort_of_pairwise (by decide +kernel)
  rw [UnitFile.collect_eq_ok_iff]
  refine ⟨[mixedFiles], mapM_eq_ok_iff.2 ?_, ?_⟩
  · rw [hplaces, List.map_singleton, hinput]
    rfl
  · rw [List.flatten_singleton, hsorted, mixedFiles, UnitFile.dropRepeats,
      if_neg (by decide +kernel), UnitFile.dropRepeats]

end Inputs

theorem exists_readUnit_mixed {f : UnitFile} (hf : f ∈ mixedFiles)
    (hne : f.path ≠ ⟨"/w/strict.json"⟩) : ∃ u, readUnit f = .ok u := by
  have hparse : (CompilationUnit.ofText emptyUnit).toOption.isSome := by decide +kernel
  rcases List.mem_cons.1 hf with rfl | hf
  · obtain ⟨u, hu⟩ := Option.isSome_iff_exists.1 hparse
    exact ⟨u, mapError_eq_ok_iff.2 (toOption_eq_some_iff.1 hu)⟩
  · obtain rfl := List.mem_singleton.1 hf
    exact absurd rfl hne

theorem places_mixed : UnitFile.places ⟨"/w"⟩ [] = [⟨"/w"⟩] := by decide +kernel

theorem readText_strict :
    (FileSystem.ofMachine mixedMachine).readText ((Path.mk "/w").join ⟨"strict.json"⟩) =
      .ok noOptions :=
  toOption_eq_some_iff.1 (by decide +kernel)

theorem readText_current :
    (FileSystem.ofMachine mixedMachine).readText ((Path.mk "/w").join ⟨"current.json"⟩) =
      .ok noOptions :=
  toOption_eq_some_iff.1 (by decide +kernel)

section Config

variable (hread : (FileSystem.ofMachine mixedMachine).readText ((Path.mk "/w").join p) =
  .ok noOptions)

include hread

theorem options_mixed : options (.ofMachine mixedMachine) ⟨"/w"⟩ (some p) = .ok .default := by
  have hparse : (Options.ofText noOptions).toOption = some .default := by decide +kernel
  rw [options, readOptions, hread]
  exact mapError_eq_ok_iff.2 (toOption_eq_some_iff.1 hparse)

theorem run_mixed :
    ∃ cause, run (.ofMachine mixedMachine) ⟨"/w"⟩ (mixedRun [] (some p)) =
      .error (.unitInvalid ⟨"/w/strict.json"⟩ cause) := by
  have hparse : (CompilationUnit.ofText noOptions).toOption = none := by decide +kernel
  obtain ⟨cause, hcause⟩ := toOption_eq_none_iff.1 hparse
  have hunit : readUnit ⟨⟨"/w/strict.json"⟩, noOptions.toUTF8⟩ =
      .error (.unitInvalid ⟨"/w/strict.json"⟩ cause) :=
    mapError_eq_error_iff.2 ⟨cause, hcause, rfl⟩
  have hids : verdict ((Options.default.unknownRuleId? Rule.builtIn).map Failure.unknownRule) () =
      .ok () := by
    rw [show Options.default.unknownRuleId? Rule.builtIn = none by decide +kernel]
    rfl
  have hunits : mixedFiles.mapM readUnit = .error (.unitInvalid ⟨"/w/strict.json"⟩ cause) := by
    rw [mixedFiles, mapM_cons_eq_error_iff, mapM_cons_eq_error_iff]
    exact .inr ⟨exists_readUnit_mixed List.mem_cons_self (by decide), .inl hunit⟩
  refine ⟨cause, ?_⟩
  simp only [run_eq, bind_eq_error_iff, map_eq_error_iff]
  exact .inr ⟨.default, options_mixed hread,
    .inr ⟨(), hids, .inr ⟨mixedFiles, collect_mixed places_mixed, hunits⟩⟩⟩

end Config

/-! ## The options of the run -/

theorem exists_place?_configPlace {m : Machine} {place : List String} (hnone : args.config = none)
    (hlinked : ¬ ∃ start target, m.place? cwd = some start ∧
      m.links.lookup (start ++ [configName]) = some target)
    (h : m.place? (configPlace cwd args) = some place) :
    ∃ start, place = start ++ [configName] := by
  rw [configPlace, hnone] at h
  have hlink (start : List String) (hstart : m.place? cwd = some start) :
      m.links.lookup (start ++ [configName]) = none :=
    Option.eq_none_iff_forall_ne_some.2 fun target htarget =>
      hlinked ⟨start, target, hstart, htarget⟩
  obtain ⟨start, -, hplace⟩ := Machine.exists_place?_of_join (by decide) h hlink
  exact ⟨start, hplace⟩

/-- Among inputs that are directories, the file with the options is gathered if it lies below one
of them and ends in `.json`, unless it is called like the options of a directory. It is not
gathered if it is called so; and if no options file is named, it can only be called otherwise
if the working directory has a link of that name. What is not gathered no run blames. If all other
files that were gathered are units, a run blames no unit file but the one with the options, and
that only where it is in reach. -/
theorem options_gathered_iff (m : Machine) (cwd : Path) (args : Arguments) (hm : m.Proper)
    (hinputs : ∀ q ∈ UnitFile.places cwd args.inputs, ∃ entries,
      FileSystem.ofMachine m q = .ok (.directory entries))
    (hfiles : UnitFile.collect (.ofMachine m) cwd args.inputs = .ok files) :
    let fs := FileSystem.ofMachine m
    let config := configPlace cwd args
    let reached := UnitFile.Reached m (UnitFile.places cwd args.inputs) config
    let linked := ∃ start target, m.place? cwd = some start ∧
      m.links.lookup (start ++ [configName]) = some target
    (∀ e, fs config = .ok e → (UnitFile.Gathered m files config ↔ fs.isFile config ∧ reached)) ∧
    (args.config = none ∧ ¬ linked ∨ (∃ start, m.place? config = some (start ++ [configName])) →
      ¬ UnitFile.Gathered m files config ∧
      ∀ e p, run fs cwd args = .error e → e.unit? = some p → ¬ m.SamePlace p config) ∧
    ((∀ f ∈ files, ¬ m.SamePlace f.path config → ∃ u, readUnit f = .ok u) →
      ∀ e p, run fs cwd args = .error e → e.unit? = some p →
        m.SamePlace p config ∧ reached) := by
  intro fs config reached linked
  have hblamed (e : Failure) (p : Path) (hrun : run fs cwd args = .error e)
      (hp : e.unit? = some p) : ∃ f ∈ files, f.path = p ∧ readUnit f = .error e := by
    obtain ⟨files', hfiles', f, hf⟩ := exists_of_run_eq_error hrun hp
    obtain rfl := Except.ok.inj (hfiles.symm.trans hfiles')
    exact ⟨f, hf⟩
  have hreached (h : UnitFile.Gathered m files config) : reached :=
    UnitFile.reached_of_gathered hm hinputs hfiles h
  refine ⟨fun e he => UnitFile.gathered_iff hm hinputs hfiles he, fun hname => ?_,
    fun hunits e p hrun hp => ?_⟩
  · have hnot : ¬ UnitFile.Gathered m files config := fun h => by
      obtain ⟨q, -, hreach⟩ := hreached h
      obtain ⟨-, -, place, -, hplace⟩ := h
      rcases hname with ⟨hnone, hlinked⟩ | ⟨start, hstart⟩
      · obtain ⟨start, rfl⟩ := exists_place?_configPlace hnone hlinked hplace
        exact hreach.place?_ne start hplace
      · exact hreach.place?_ne start hstart
    refine ⟨hnot, fun e p hrun hp hplace => ?_⟩
    obtain ⟨f, hf, rfl, -⟩ := hblamed e p hrun hp
    exact hnot ⟨f, hf, hplace⟩
  · obtain ⟨f, hf, rfl, hread⟩ := hblamed e p hrun hp
    have hplace : m.SamePlace f.path config := by
      by_contra hother
      obtain ⟨u, hu⟩ := hunits f hf hother
      rw [hread] at hu
      cases hu
    exact ⟨hplace, hreached ⟨f, hf, hplace⟩⟩

/-- The options that the directory keeps are passed over. Others beside them are gathered when they
are named, be it through a link, and the run ends there; and so they are where a link stands for
the options that are kept. -/
theorem options_gathered_mixed :
    let fs := FileSystem.ofMachine mixedMachine
    let kept := configPlace ⟨"/w"⟩ (mixedRun [] none)
    let named := configPlace ⟨"/w"⟩ (mixedRun [] (some ⟨"current.json"⟩))
    let linked := configPlace ⟨"/v"⟩ (mixedRun [⟨"/w"⟩] none)
    mixedMachine.Proper ∧
    (∀ q ∈ UnitFile.places ⟨"/w"⟩ [], ∃ entries, fs q = .ok (.directory entries)) ∧
    UnitFile.collect fs ⟨"/w"⟩ [] = .ok mixedFiles ∧
    UnitFile.collect fs ⟨"/v"⟩ [⟨"/w"⟩] = .ok mixedFiles ∧
    (fs.isFile kept ∧ ¬ UnitFile.Gathered mixedMachine mixedFiles kept) ∧
    (fs.isFile named ∧ UnitFile.Gathered mixedMachine mixedFiles named) ∧
    (fs.isFile linked ∧ UnitFile.Gathered mixedMachine mixedFiles linked) ∧
    ∃ e p, run fs ⟨"/w"⟩ (mixedRun [] (some ⟨"current.json"⟩)) = .error e ∧ e.unit? = some p ∧
      mixedMachine.SamePlace p named := by
  intro fs kept named linked
  have hplaces : UnitFile.places ⟨"/v"⟩ [⟨"/w"⟩] = [⟨"/w"⟩] := by decide +kernel
  have hinW (config : Option Path) :=
    options_gathered_iff mixedMachine ⟨"/w"⟩ (mixedRun [] config) proper_mixedMachine
      (exists_directory_mixed places_mixed) (collect_mixed places_mixed)
  have hinV :=
    options_gathered_iff mixedMachine ⟨"/v"⟩ (mixedRun [⟨"/w"⟩] none) proper_mixedMachine
      (exists_directory_mixed hplaces) (collect_mixed hplaces)
  have hw : mixedMachine.place? ⟨"/w"⟩ = some ["w"] := by decide +kernel
  have hstrict : mixedMachine.place? ⟨"/w/strict.json"⟩ = some ["w", "strict.json"] := by
    decide +kernel
  have hreach {config : Path} (hplace : mixedMachine.place? config = some ["w", "strict.json"]) :
      UnitFile.InReach mixedMachine ⟨"/w"⟩ config :=
    ⟨["w"], [], "strict", hw, hplace, by decide, by decide⟩
  -- the directory keeps its options in a file, not in a link
  have hkept : ¬ ∃ start target, mixedMachine.place? ⟨"/w"⟩ = some start ∧
      mixedMachine.links.lookup (start ++ [configName]) = some target := by
    rintro ⟨start, target, hstart, htarget⟩
    obtain rfl := Option.some.inj (hw.symm.trans hstart)
    rw [show mixedMachine.links.lookup (["w"] ++ [configName]) = none by decide] at htarget
    cases htarget
  have hnamed : mixedMachine.place? named = some ["w", "strict.json"] := by decide +kernel
  have hlinked : mixedMachine.place? linked = some ["w", "strict.json"] := by decide +kernel
  have hnamedFile : fs.isFile named := by decide +kernel
  have hlinkedFile : fs.isFile linked := by decide +kernel
  have hunits (f : UnitFile) (hf : f ∈ mixedFiles) (hne : ¬ mixedMachine.SamePlace f.path named) :
      ∃ u, readUnit f = .ok u :=
    exists_readUnit_mixed hf fun heq => hne ⟨_, heq ▸ hstrict, hnamed⟩
  obtain ⟨contentNamed, hcontentNamed⟩ := FileSystem.isFile_iff.1 hnamedFile
  obtain ⟨contentLinked, hcontentLinked⟩ := FileSystem.isFile_iff.1 hlinkedFile
  obtain ⟨cause, hrun⟩ := run_mixed readText_current
  exact ⟨proper_mixedMachine, exists_directory_mixed places_mixed, collect_mixed places_mixed,
    collect_mixed hplaces, ⟨by decide +kernel, ((hinW none).2.1 (.inl ⟨rfl, hkept⟩)).1⟩,
    ⟨hnamedFile, ((hinW _).1 _ hcontentNamed).2
      ⟨hnamedFile, ⟨"/w"⟩, by decide +kernel, hreach hnamed⟩⟩,
    ⟨hlinkedFile, (hinV.1 _ hcontentLinked).2
      ⟨hlinkedFile, ⟨"/w"⟩, by decide +kernel, hreach hlinked⟩⟩,
    _, _, hrun, rfl, ((hinW _).2.2 hunits _ _ hrun rfl).1⟩

/-- The options are read from a file that is gathered as a unit. All other files are units, and
the run fails over its own options. -/
theorem options_taken_for_unit :
    let fs := FileSystem.ofMachine mixedMachine
    let args := mixedRun [] (some ⟨"strict.json"⟩)
    let config := configPlace ⟨"/w"⟩ args
    mixedMachine.Proper ∧
    (∀ q ∈ UnitFile.places ⟨"/w"⟩ args.inputs, ∃ entries, fs q = .ok (.directory entries)) ∧
    options fs ⟨"/w"⟩ args.config = .ok .default ∧
    (∃ files, UnitFile.collect fs ⟨"/w"⟩ args.inputs = .ok files ∧
      config ∈ files.map (·.path) ∧
      ∀ f ∈ files, f.path ≠ config → ∃ u, readUnit f = .ok u) ∧
    ∃ cause, run fs ⟨"/w"⟩ args = .error (.unitInvalid config cause) := by
  intro fs args config
  have hconfig : config = ⟨"/w/strict.json"⟩ := by decide +kernel
  refine ⟨proper_mixedMachine, exists_directory_mixed places_mixed, options_mixed readText_strict,
    ⟨mixedFiles, collect_mixed places_mixed, ?_,
      fun f hf hne => exists_readUnit_mixed hf (hconfig ▸ hne)⟩, ?_⟩
  · rw [hconfig]
    decide
  · rw [hconfig]
    exact run_mixed readText_strict

end Session

end OpLint
