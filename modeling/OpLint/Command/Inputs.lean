import OpLint.Command.Failure
import OpLint.File.Tree

/-!
# Inputs of the command

An input is a file, or a directory that is searched for unit files, to the end or
not at all. However often and in whatever spelling a file is reached it counts once,
and the files come in the order of their paths.
-/

namespace OpLint

/-- The name under which a directory keeps its options. No search takes a file of
that name for a unit. -/
def configName : String := "opcheck.json"

/-- Whether a search takes a file of that name for a unit. -/
def isUnitName (name : String) : Bool :=
  Path.extension? name = some "json" && name ≠ configName

/-- A file that holds a unit. -/
structure UnitFile where
  path : Path
  content : ByteArray
  deriving Inhabited

namespace UnitFile

/-- The text of a file. A search may find a file whose path is too long to open. -/
def text (f : UnitFile) : Except FileError String :=
  match FileSystem.refusal? f.path with
  | some cause => .error cause
  | none => FileSystem.textOf f.content

/-- The unit files that an input stands for. -/
def ofInput (fs : FileSystem) (p : Path) : Except Failure (List UnitFile) :=
  match fs p with
  | .ok (.file content) => return [⟨p, content⟩]
  | .ok (.directory entries) =>
    match FileSystem.impasse? p entries with
    | some (place, cause) => throw (.searchStopped p place cause)
    | none =>
      return ((Entry.filesIn p entries).filter fun (_, name, _) => isUnitName name).map
        fun (path, _, content) => ⟨path, content⟩
  | .ok (.device _) | .error _ => throw (.inputNotFound p)

/-- Keeps the first of several files in a row whose paths are the same. -/
def dropRepeats : List UnitFile → List UnitFile
  | [] => []
  | [f] => [f]
  | f :: g :: files =>
    if f.path.same g.path then dropRepeats (f :: files) else f :: dropRepeats (g :: files)
termination_by files => files.length

def sort (files : List UnitFile) : List UnitFile :=
  files.mergeSort fun f g => (f.path.order g.path).isLE

/-- The paths of the inputs, as seen from the working directory. Without inputs, that
directory is the input. -/
def places (cwd : Path) (inputs : List Path) : List Path :=
  (if inputs.isEmpty then [cwd] else inputs).map cwd.join

/-- The unit files that the inputs stand for. -/
def collect (fs : FileSystem) (cwd : Path) (inputs : List Path) :
    Except Failure (List UnitFile) := do
  let files ← (places cwd inputs).mapM (ofInput fs)
  return dropRepeats (sort files.flatten)

end UnitFile

end OpLint
