/-!
# Formats of the log
-/

namespace OpLint

inductive LogFormat
  | text
  | tree
  | json
  deriving DecidableEq, Repr, Inhabited

/-- The format of a name, in any mix of capital and small letters. Every other name
means plain text. -/
def LogFormat.ofName (name : String) : LogFormat :=
  match name.toLower with
  | "tree" => .tree
  | "json" => .json
  | _ => .text

end OpLint
