import Mathlib.Data.List.Basic
import OpLint.File.Tree

/-!
# What is found below a directory

The search through a directory lists files with their paths and names, and there is another
list of the directories it enters. Both are read off one relation, `Reaches`: names, followed
one after the other from an entry, lead to another entry. A file is listed if it is reached,
under the path that grows by these names, and so is a directory.
-/

namespace OpLint

/-- Names that are followed from an entry, each one in a directory, lead to another entry. -/
inductive Entry.Reaches : Entry → List String → Entry → Prop
  | refl (e : Entry) : Reaches e [] e
  | step {name : String} {e e' : Entry} {entries : List (String × Entry)} {names : List String} :
    (name, e) ∈ entries → Reaches e names e' → Reaches (directory entries) (name :: names) e'

/-- The path that grows by names. -/
def Path.descend (p : Path) (names : List String) : Path :=
  names.foldl (fun p name => p.join ⟨name⟩) p

namespace Entry

variable {entries : List (String × Entry)} {names : List String} {e e' : Entry}

theorem reaches_directory_iff :
    Reaches (directory entries) names e' ↔
      names = [] ∧ e' = directory entries ∨
        ∃ x ∈ entries, ∃ rest, names = x.1 :: rest ∧ x.2.Reaches rest e' := by
  constructor
  · rintro (_ | ⟨hmem, hrest⟩)
    · exact Or.inl ⟨rfl, rfl⟩
    · exact Or.inr ⟨_, hmem, _, rfl, hrest⟩
  · rintro (⟨rfl, rfl⟩ | ⟨x, hmem, rest, rfl, hrest⟩)
    · exact .refl _
    · exact .step hmem hrest

/-- Files are found in a directory through its entries. -/
theorem reaches_directory_file_iff {content : ByteArray} :
    Reaches (directory entries) names (file content) ↔
      ∃ x ∈ entries, ∃ rest, names = x.1 :: rest ∧ x.2.Reaches rest (file content) :=
  reaches_directory_iff.trans (or_iff_right nofun)

mutual

theorem mem_filesBelow (p : Path) (name : String) (e : Entry) (f : Path × String × ByteArray) :
    f ∈ e.filesBelow p name ↔
      ∃ names content, e.Reaches names (file content) ∧
        f = (p.descend names, names.getLastD name, content) := by
  cases e with
  | file content =>
      rw [filesBelow, List.mem_singleton]
      constructor
      · rintro rfl
        exact ⟨[], content, .refl _, rfl⟩
      · rintro ⟨_, _, ⟨⟩, rfl⟩
        rfl
  | device content =>
      refine iff_of_false List.not_mem_nil ?_
      rintro ⟨_, _, ⟨⟩, -⟩
  | directory entries =>
      rw [filesBelow, mem_filesIn]
      simp only [reaches_directory_file_iff]
      constructor
      · rintro ⟨x, hx, rest, content, hrest, rfl⟩
        exact ⟨_, content, ⟨x, hx, rest, rfl, hrest⟩, by rw [List.getLastD_cons]⟩
      · rintro ⟨_, content, ⟨x, hx, rest, rfl, hrest⟩, rfl⟩
        exact ⟨x, hx, rest, content, hrest, by rw [List.getLastD_cons]⟩

theorem mem_filesIn (p : Path) (entries : List (String × Entry)) (f : Path × String × ByteArray) :
    f ∈ filesIn p entries ↔
      ∃ x ∈ entries, ∃ rest content, x.2.Reaches rest (file content) ∧
        f = (p.descend (x.1 :: rest), rest.getLastD x.1, content) := by
  cases entries with
  | nil => simp [filesIn]
  | cons x entries =>
      obtain ⟨name, e⟩ := x
      rw [filesIn, List.mem_append, mem_filesBelow, mem_filesIn, List.exists_mem_cons_iff]
      rfl

end

/-- The files in a directory are the files that are reached from it, each with its last name. -/
theorem mem_filesIn_iff {p : Path} {f : Path × String × ByteArray} :
    f ∈ filesIn p entries ↔
      ∃ names name content, (directory entries).Reaches (names ++ [name]) (file content) ∧
        f = (p.descend (names ++ [name]), name, content) := by
  rw [mem_filesIn]
  simp only [reaches_directory_file_iff]
  constructor
  · rintro ⟨x, hx, rest, content, hrest, rfl⟩
    have hlast : (x.1 :: rest).dropLast ++ [rest.getLastD x.1] = x.1 :: rest := by
      rw [← List.getLast_eq_getLastD (List.cons_ne_nil x.1 rest)]
      exact List.dropLast_concat_getLast _
    exact ⟨_, _, content, ⟨x, hx, rest, hlast, hrest⟩, by rw [hlast]⟩
  · rintro ⟨names, name, content, ⟨x, hx, rest, hnames, hrest⟩, rfl⟩
    have hlast : name = rest.getLastD x.1 := by
      rw [← List.getLastD_cons (a := ""), ← hnames, List.getLastD_concat]
    exact ⟨x, hx, rest, content, hrest, by rw [hnames, hlast]⟩

mutual

theorem mem_directoriesBelow (p : Path) (e : Entry) (d : Path) :
    d ∈ e.directoriesBelow p ↔
      ∃ names entries, e.Reaches names (directory entries) ∧ d = p.descend names := by
  cases e with
  | file content | device content =>
      refine iff_of_false List.not_mem_nil ?_
      rintro ⟨_, _, ⟨⟩, -⟩
  | directory entries =>
      rw [directoriesBelow, List.mem_cons, mem_directoriesIn]
      simp only [reaches_directory_iff]
      constructor
      · rintro (rfl | ⟨x, hx, rest, entries', hrest, rfl⟩)
        · exact ⟨[], entries, Or.inl ⟨rfl, rfl⟩, rfl⟩
        · exact ⟨_, entries', Or.inr ⟨x, hx, rest, rfl, hrest⟩, rfl⟩
      · rintro ⟨_, entries', ⟨rfl, -⟩ | ⟨x, hx, rest, rfl, hrest⟩, rfl⟩
        · exact Or.inl rfl
        · exact Or.inr ⟨x, hx, rest, entries', hrest, rfl⟩

theorem mem_directoriesIn (p : Path) (entries : List (String × Entry)) (d : Path) :
    d ∈ directoriesIn p entries ↔
      ∃ x ∈ entries, ∃ rest entries', x.2.Reaches rest (directory entries') ∧
        d = p.descend (x.1 :: rest) := by
  cases entries with
  | nil => simp [directoriesIn]
  | cons x entries =>
      obtain ⟨name, e⟩ := x
      rw [directoriesIn, List.mem_append, mem_directoriesBelow, mem_directoriesIn,
        List.exists_mem_cons_iff]
      rfl

end

end Entry

theorem FileSystem.isFile_iff {fs : FileSystem} {p : Path} :
    fs.isFile p ↔ ∃ content, fs p = .ok (.file content) := by
  rw [isFile]
  split
  · next content h => exact iff_of_true rfl ⟨content, h⟩
  · next h =>
      refine iff_of_false Bool.false_ne_true ?_
      rintro ⟨content, hcontent⟩
      exact h content hcontent

end OpLint
