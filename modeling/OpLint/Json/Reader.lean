import OpLint.Json.Draft
import OpLint.Json.Error
import OpLint.Vocabulary

/-!
# Readers of values

A reader takes a draft and gives a value of its type or the first problem it meets
from left to right. Its first argument is the number of nested brackets that are
still too many: each bracket entered takes one off, and none may be entered once
a single one is left.
-/

namespace OpLint.Json

abbrev Reader (α : Type) := Nat → Draft → Except Error α

/-- Brackets may nest this deep, less one. -/
def depthLimit : Nat := 128

namespace Reader

variable {α β : Type}

/-- The problem with a draft that is not of the expected kind. -/
def mismatch (d : Draft) (expected : String) : Error :=
  match d with
  | .broken | .unreadable => .malformed
  | .null => .wrongType .null expected
  | .bool b => .wrongType (.bool b) expected
  | .number (.natural n) => .wrongType (.integer n) expected
  | .number (.negative n) => .wrongType (.integer (-n)) expected
  | .number (.real x) => .wrongType (.real x) expected
  | .string s => .wrongType (.string s) expected
  | .array .. => .wrongType .sequence expected
  | .object .. => .wrongType .map expected

/-- The depth within a bracket. -/
def enter (depth : Nat) : Except Error Nat :=
  if depth ≤ 1 then .error .malformed else .ok (depth - 1)

/-- Nothing is missing before the closing bracket. -/
def close : Ending → Except Error PUnit
  | .closed => .ok ⟨⟩
  | .cut => .error .malformed

/-! ## Scalars -/

/-- A 32-bit word. -/
def word : Reader UInt32
  | _, .number (.natural n) =>
    if n < UInt32.size then .ok (.ofNat n) else .error (.wrongValue (.integer n) "u32")
  | _, .number (.negative n) => .error (.wrongValue (.integer (-n)) "u32")
  | _, d => .error (mismatch d "u32")

def text : Reader String
  | _, .string s => .ok s
  | _, d => .error (mismatch d "a string")

def flag : Reader Bool
  | _, .bool b => .ok b
  | _, d => .error (mismatch d "a boolean")

/-- A value that may also be null. -/
def optional (read : Reader α) : Reader (Option α)
  | _, .null => .ok none
  | depth, d => (read depth d).map some

def map (f : α → β) (read : Reader α) : Reader β := fun depth d =>
  (read depth d).map f

/-- A value that must pass a further test. -/
def refine (read : Reader α) (f : α → Except Error β) : Reader β := fun depth d =>
  read depth d >>= f

/-! ## Lists and tables -/

def list (read : Reader α) : Reader (List α)
  | depth, .array items ending => do
    let inner ← enter depth
    let values ← items.mapM (read inner)
    close ending
    return values
  | _, d => .error (mismatch d "a sequence")

/-- An object with arbitrary keys, in their order. -/
def table (read : Reader α) : Reader (List (String × α))
  | depth, .object members ending => do
    let inner ← enter depth
    let (members, ending) := Draft.legible members ending
    let entries ← members.mapM fun (key, d) => (read inner d).map (key, ·)
    close ending
    return entries
  | _, d => .error (mismatch d "a map")

/-! ## Words of a vocabulary -/

def ofName [Vocabulary α] (name : String) : Except Error α :=
  match Vocabulary.ofWord? name with
  | some a => .ok a
  | none => .error (.unknownVariant name (Vocabulary.words α))

/-- A word and nothing else. -/
def name [Vocabulary α] : Reader α
  | _, .string s => ofName s
  | _, d => .error (mismatch d "variant identifier")

/-- A word, or an object whose only key is the word and whose value is null. -/
def variant [Vocabulary α] : Reader α
  | _, .string s => ofName s
  | depth, .object ((some key, d) :: more) ending => do
    let _ ← enter depth
    let value ← ofName key
    match d with
    | .null => pure ()
    | d => throw (mismatch d "unit")
    if more.isEmpty then
      close ending
      return value
    else throw .malformed
  | _, _ => .error .malformed

/-- Reads as `variant` does a value that was kept for later. By then its text is known
to be sound, and what is wrong with it is its shape. -/
def keptVariant [Vocabulary α] : Reader α
  | _, .string s => ofName s
  | _, .object [(some key, d)] _ => do
    let value ← ofName key
    match d with
    | .null | .object [] _ => return value
    | d => throw (mismatch d "unit")
  | _, .object .. => .error (.wrongValue .map "map with a single key")
  | _, d => .error (mismatch d "string or map")

/-! ## Texts -/

/-- Reads a whole text. -/
def run (read : Reader α) (text : String) : Except Error α := do
  let (draft, complete) := Draft.ofText text
  let value ← read depthLimit draft
  if complete then return value else throw .malformed

end Reader

end OpLint.Json
