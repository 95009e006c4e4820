import OpLint.Diagnostic.Basic
import OpLint.Report.Sources
import OpLint.Report.Style
import OpLint.Text.Lines

/-!
# Reports

A report shows each diagnostic on a line of its own: file and position, severity,
code, message. Related places follow on lines of their own. A position is shown
only where the source text of the file is known.
-/

namespace OpLint

structure Reporter where
  color : Bool
  sources : Sources
  deriving Repr

namespace Reporter

/-- The text, styled if the report is in color. -/
def paint (r : Reporter) (style : Style) (text : String) : String :=
  if r.color then style.apply text else text

/-- How a file is called in a report. -/
def displayName (file : String) : String :=
  if file.isEmpty then "<unknown>" else file

def location (r : Reporter) (file : String) (offset : UInt32) : String :=
  let name := displayName file
  match r.sources.text? name with
  | none => name
  | some source =>
    let position := (Text.LineTable.ofText source).position offset.toNat source
    s!"{name}({position.line + 1},{position.character + 1})"

def severityStyle : Severity → Style
  | .error => .boldRed
  | .warning => .boldYellow
  | .info => .boldCyan
  | .hidden => .dimmed

def related (r : Reporter) (d : Related) : String :=
  r.paint .dimmed "  related" ++ ": " ++ r.location d.file d.start ++ ": " ++ d.message

def diagnostic (r : Reporter) (d : Diagnostic) : String :=
  let line := r.location d.file d.start ++ ": " ++
    r.paint (severityStyle d.severity) (Vocabulary.word d.severity) ++ " " ++
    r.paint .brightBlue d.code ++ ": " ++ d.message
  "\n".intercalate (line :: d.related.map r.related)

/-- All diagnostics, one below the other. -/
def render (r : Reporter) (ds : List Diagnostic) : String :=
  "\n".intercalate (ds.map r.diagnostic)

/-- A count with its noun. -/
def counted (n : Nat) (noun : String) : String :=
  s!"{n} {noun}" ++ if n = 1 then "" else "s"

/-- How many diagnostics there are, in how many files. -/
def summary (r : Reporter) (ds : List Diagnostic) : String :=
  let files := (ds.map Diagnostic.file).eraseDups
  r.paint .bold <|
    "Found " ++ counted ds.length "diagnostic" ++ " in " ++ counted files.length "file" ++ "."

end Reporter

end OpLint
