import OpLint.Event
import OpLint.Unit.Basic

/-!
# Source texts by file name

A diagnostic names its file and not its unit. So a file name has a source text as
long as all units of that name that carry one carry the same. Once two of them
differ the name is ambiguous, and it stays so.
-/

namespace OpLint

/-- For each file name its text, or `none` if it is ambiguous. -/
structure Sources where
  entries : List (String × Option String)
  deriving DecidableEq, Repr, Inhabited

namespace Sources

def empty : Sources := ⟨[]⟩

/-- The text of a file name that has one. -/
def text? (s : Sources) (file : String) : Option String :=
  (s.entries.lookup file).join

/-- Marks a file name. -/
def markAmbiguous (s : Sources) (file : String) : Sources :=
  ⟨s.entries.map fun (name, text) => (name, if name = file then none else text)⟩

/-- Takes in the source of a unit. Logs when that makes its file name ambiguous. -/
def add (s : Sources) (u : CompilationUnit) : Sources × List Event :=
  match u.source with
  | none => (s, [])
  | some source =>
    match s.entries.lookup u.file with
    | none => (⟨(u.file, some source) :: s.entries⟩, [])
    | some none => (s, [])
    | some (some known) =>
      if known = source then (s, [])
      else (s.markAmbiguous u.file, [.ambiguousSource u.file])

/-- Takes in the sources of several units. -/
def addAll (s : Sources) (units : List CompilationUnit) : Sources × List Event :=
  units.foldl
    (fun (s, events) u =>
      let (s, more) := s.add u
      (s, events ++ more))
    (s, [])

def ofUnits (units : List CompilationUnit) : Sources :=
  (empty.addAll units).1

end Sources

end OpLint
