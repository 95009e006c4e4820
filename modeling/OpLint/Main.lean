import OpLint.Command.Screen

/-!
# The command

Everything that the command does is decided elsewhere. What is left is to look at
the places that a run needs, and to print.
-/

namespace OpLint

/-- What the machine holds at a place. A directory is read with everything below it
that a search could take; links within it are not followed. What a device holds is
read only on request. -/
partial def readPlace (devices : Bool) (place : String) : IO (Except FileError Entry) := do
  let path := System.mkFilePath [place]
  match ← path.metadata.toBaseIO with
  | .error (.inappropriateType ..) => return .error .notDirectory
  | .error (.invalidArgument _ 36 _) => return .error .nameTooLong
  | .error (.invalidArgument _ 40 _) => return .error .tooManyLinks
  | .error _ => return .error .notFound
  | .ok found =>
    match found.type with
    | .file => return .ok (.file (← IO.FS.readBinFile path))
    | .dir =>
      let mut entries := #[]
      for item in ← path.readDir do
        if let .ok found ← item.path.symlinkMetadata.toBaseIO then
          let kind := found.type
          if kind == .dir || (kind == .file && isUnitName item.fileName) then
            if let .ok entry ← readPlace false (place ++ "/" ++ item.fileName) then
              entries := entries.push (item.fileName, entry)
      return .ok (.directory entries.toList)
    | _ => return .ok (.device (← if devices then IO.FS.readBinFile path else pure .empty))

/-- The file system as far as a run looks at it. Options may come from a device if it
is named outright. -/
def readPlaces (cwd : Path) (args : Arguments) : IO FileSystem := do
  let config := Session.configPlace cwd args
  let options ← readPlace args.config.isSome config.text
  let inputs ← (UnitFile.places cwd args.inputs).mapM fun p => return (p, ← readPlace false p.text)
  return fun p => (((config, options) :: inputs).lookup p).getD (.error .notFound)

end OpLint

open OpLint in
def main (arguments : List String) : IO UInt32 := do
  let screen ← match Arguments.ofTexts arguments with
    | .error refusal => pure (Screen.ofRefusal refusal)
    | .ok args =>
      let cwd : Path := ⟨(← IO.currentDir).toString⟩
      let files ← readPlaces cwd args
      pure (Screen.ofArguments files cwd (← (← IO.getStdout).isTty) args)
  (← IO.getStdout).putStr screen.output
  (← IO.getStderr).putStr screen.errors
  return screen.exitCode.toUInt32
