import OpLint.Analysis.Run
import OpLint.Command.Arguments
import OpLint.Command.Inputs
import OpLint.Options.Stored
import OpLint.Rule.InfiniteRecursion
import OpLint.Unit.Stored

/-!
# A run of the command

A session reads the options, then the units, and analyzes them with the rules of
the library. The options are checked before any unit is read.
-/

namespace OpLint

/-- The units of a run and what was found in them. -/
structure Session where
  units : List CompilationUnit
  outcome : Outcome
  deriving Repr

namespace Session

/-- The options in a file. -/
def readOptions (fs : FileSystem) (p : Path) : Except Failure Options :=
  match fs.readText p with
  | .error cause => throw (.configUnreadable p cause)
  | .ok text => (Options.ofText text).mapError (.configInvalid p)

/-- The options of the given file, else those of the working directory, else the
default ones. -/
def options (fs : FileSystem) (cwd : Path) (explicit : Option Path) : Except Failure Options :=
  match explicit with
  | some p => readOptions fs (cwd.join p)
  | none =>
    let candidate := cwd.join ⟨configName⟩
    if fs.isFile candidate then readOptions fs candidate else return .default

/-- The unit in a file. -/
def readUnit (f : UnitFile) : Except Failure CompilationUnit :=
  match f.text with
  | .error cause => throw (.unitUnreadable f.path cause)
  | .ok text => (CompilationUnit.ofText text).mapError (.unitInvalid f.path)

/-- Where a run looks for its options. -/
def configPlace (cwd : Path) (args : Arguments) : Path :=
  cwd.join (args.config.getD ⟨configName⟩)

def run (fs : FileSystem) (cwd : Path) (args : Arguments) : Except Failure Session := do
  let options ← options fs cwd args.config
  if let some id := options.unknownRuleId? Rule.builtIn then throw (.unknownRule id)
  let files ← UnitFile.collect fs cwd args.inputs
  let units ← files.mapM readUnit
  return ⟨units, (Analyzer.ofRules options Rule.builtIn).analyze false units⟩

end Session

end OpLint
