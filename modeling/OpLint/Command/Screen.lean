import OpLint.Command.Session
import OpLint.Diagnostic.Stored
import OpLint.Report.Basic

/-!
# What the command prints

Findings and their number go to the output, everything else to the error output.
The exit code is 0 when nothing was found, 1 when something was found or the run
failed, and 2 when the arguments were refused.
-/

namespace OpLint

structure Screen where
  exitCode : UInt8
  output : String
  errors : String
  deriving DecidableEq, Repr

namespace Screen

/-- The version of the command. -/
def version : String := "0.1.0"

def help : String :=
  "Rule-based analysis of serialized operation trees\n\n" ++
  "Usage: opcheck [OPTIONS] [INPUTS]...\n\n" ++
  "Arguments:\n" ++
  "  [INPUTS]...  Compilation unit files (*.json) or directories to search for them. " ++
  "Defaults to the current directory\n\n" ++
  "Options:\n" ++
  "  -c, --config <CONFIG>    Path to an opcheck.json options file\n" ++
  "      --format <FORMAT>    Output format for diagnostics [default: text] " ++
  "[possible values: text, json]\n" ++
  "      --sequential         Analyze method bodies one at a time\n" ++
  "  -j, --threads <THREADS>  Number of worker threads for concurrent analysis\n" ++
  "      --list-rules         Print the available rules and exit\n" ++
  "      --no-color           Disable colored output\n" ++
  "  -h, --help               Print help\n" ++
  "  -V, --version            Print version\n"

def refusalText : Refusal → String
  | .unknownArgument argument => s!"unexpected argument '{argument}' found"
  | .unneededValue argument => s!"unexpected value in '{argument}' found; no more were expected"
  | .missingValue option => s!"a value is required for '{option}' but none was supplied"
  | .unknownFormat value => s!"invalid value '{value}' for '--format <FORMAT>'"
  | .notCount value => s!"invalid value '{value}' for '--threads <THREADS>'"
  | .repeated option => s!"the argument '{option}' cannot be used multiple times"
  | .helpWanted | .versionWanted => ""

def ofRefusal : Refusal → Screen
  | .helpWanted => ⟨0, help, ""⟩
  | .versionWanted => ⟨0, s!"opcheck {version}\n", ""⟩
  | r => ⟨2, "", "error: " ++ refusalText r ++ "\n\nFor more information, try '--help'.\n"⟩

/-! ## Rules -/

/-- Fills up a cell of a table. -/
def cell (width : Nat) (text : String) : String :=
  .ofList (List.rightpad width ' ' text.toList)

/-- One line for each rule, from its first descriptor. -/
def ruleTable (rules : List Rule) : String :=
  String.join <| rules.map fun rule =>
    match rule.descriptors with
    | [] => ""
    | d :: _ =>
      cell 8 d.id ++ " " ++ cell 8 (Vocabulary.word d.severity) ++ " " ++
        cell 16 (Vocabulary.word d.category) ++ " " ++ d.title ++ "\n"

/-! ## Findings -/

/-- The reporter of a session. -/
def reporter (s : Session) (color : Bool) : Reporter :=
  ⟨color, .ofUnits s.units⟩

def outputText (s : Session) (color : Bool) : String :=
  let r := reporter s color
  let found := s.outcome.diagnostics
  (if found.isEmpty then "" else r.render found ++ "\n\n") ++ r.summary found ++ "\n"

def outputJson (s : Session) : String :=
  (Json.Value.array (s.outcome.diagnostics.map Diagnostic.toJson)).indented ++ "\n"

def warning (faults : Nat) : String :=
  if faults = 0 then ""
  else s!"warning: {faults} rule callback(s) failed; set OPCHECK_LOG=error for details\n"

/-- What is printed about a session; `color` says whether the output can show it. -/
def ofSession (s : Session) (args : Arguments) (color : Bool) : Screen where
  exitCode := if s.outcome.diagnostics.isEmpty then 0 else 1
  output := match args.format with
    | .json => outputJson s
    | .text => outputText s (color && !args.noColor)
  errors := warning s.outcome.faults

/-- Everything that the command does with its arguments. -/
def ofArguments (fs : FileSystem) (cwd : Path) (color : Bool) (args : Arguments) : Screen :=
  if args.listRules then ⟨0, ruleTable Rule.builtIn, ""⟩
  else match Session.run fs cwd args with
    | .error f => ⟨1, "", f.text⟩
    | .ok s => ofSession s args color

end Screen

end OpLint
