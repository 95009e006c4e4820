import OpLint.File.Tree
import OpLint.Json.Error
import OpLint.Options.Basic

/-!
# Why a run of the command fails

A failure has a chain of messages, from what was attempted down to its cause.
-/

namespace OpLint

inductive Failure
  | configUnreadable (path : Path) (cause : FileError)
  | configInvalid (path : Path) (cause : Json.Error)
  | unknownRule (id : String)
  | inputNotFound (path : Path)
  /-- The search through an input stops at a place within it. -/
  | searchStopped (input place : Path) (cause : FileError)
  | unitUnreadable (path : Path) (cause : FileError)
  | unitInvalid (path : Path) (cause : Json.Error)
  deriving Repr

namespace Failure

def chain : Failure → List String
  | configUnreadable path cause => [s!"failed to read config: {path.text}", cause.message]
  | configInvalid path cause =>
    [s!"failed to parse config: {path.text}", s!"invalid analyzer options: {cause.message}",
      cause.message]
  | unknownRule id => [Options.unknownRuleMessage id]
  | inputNotFound path => [s!"input not found: {path.text}"]
  | searchStopped input place cause =>
    [s!"failed to read directory {input.text}",
      s!"IO error for operation on {place.text}: {cause.message}", cause.message]
  | unitUnreadable path cause => [s!"failed to read {path.text}", cause.message]
  | unitInvalid path cause =>
    [s!"failed to load compilation unit {path.text}",
      s!"invalid compilation unit: {cause.message}", cause.message]

/-- Sets further lines of a text in by as much as its first one. -/
def hanging (first : String) (text : String) : String :=
  let indent := String.ofList (List.replicate first.length ' ')
  first ++ ("\n" ++ indent).intercalate ((text.toList.splitOn '\n').map String.ofList)

/-- The causes, one below the other; several are numbered. -/
def causes : List String → List String
  | [cause] => [hanging "    " cause]
  | causes => causes.zipIdx.map fun (cause, i) =>
    hanging (String.ofList (List.leftpad 5 ' ' (toString i).toList) ++ ": ") cause

/-- What the command prints about a failure. -/
def text (f : Failure) : String :=
  match f.chain with
  | [] => ""
  | [message] => s!"Error: {message}\n"
  | message :: rest =>
    "Error: " ++ message ++ "\n\nCaused by:\n" ++ "\n".intercalate (causes rest) ++ "\n"

end Failure

end OpLint
