import OpLint.Decimal.Shortest
import OpLint.Text.Quoted

/-!
# Why a JSON text is not accepted

Either the text is no JSON where it matters, or a value in it has the wrong shape.
Each cause has one message.
-/

namespace OpLint.Json

/-- What a message says about a value of the wrong shape. -/
inductive Found
  | null
  | bool (b : Bool)
  | integer (i : Int)
  | real (x : Float)
  | string (s : String)
  | sequence
  | map
  deriving Repr

def Found.text : Found → String
  | null => "null"
  | bool b => s!"boolean `{b}`"
  | integer i => s!"integer `{i}`"
  | real x => s!"floating point `{Decimal.doubleText x}`"
  | string s => s!"string {Text.quoted s}"
  | sequence => "sequence"
  | map => "map"

inductive Error
  | malformed
  | wrongType (found : Found) (expected : String)
  | wrongValue (found : Found) (expected : String)
  | wrongLength (length : Nat) (expected : String)
  | missingField (name : String)
  | duplicateField (name : String)
  | unknownField (name : String) (known : List String)
  | unknownVariant (name : String) (known : List String)
  /-- The shape is right, and what the value says is not acceptable. -/
  | refused (reason : String)
  deriving Repr, Inhabited

namespace Error

/-- Lists the names that would have been right. -/
def choices : List String → String
  | [] => "nothing"
  | [a] => s!"`{a}`"
  | [a, b] => s!"`{a}` or `{b}`"
  | names => "one of " ++ ", ".intercalate (names.map fun name => s!"`{name}`")

def message : Error → String
  | malformed => "<json syntax error>"
  | wrongType found expected => s!"invalid type: {found.text}, expected {expected}"
  | wrongValue found expected => s!"invalid value: {found.text}, expected {expected}"
  | wrongLength length expected => s!"invalid length {length}, expected {expected}"
  | missingField name => s!"missing field `{name}`"
  | duplicateField name => s!"duplicate field `{name}`"
  | unknownField name known => s!"unknown field `{name}`, expected {choices known}"
  | unknownVariant name known => s!"unknown variant `{name}`, expected {choices known}"
  | refused reason => reason

end Error

end OpLint.Json
