/-!
# JSON values and their texts

The values that this library writes: numbers are natural, and the members of an
object keep their order. A value has two texts. The compact one holds no blanks;
the indented one puts every item and member on a line of its own, two blanks
deeper than what encloses it, and leaves empty arrays and objects closed up.
-/

namespace OpLint.Json

inductive Value
  | null
  | bool (b : Bool)
  | number (n : Nat)
  | string (s : String)
  | array (items : List Value)
  | object (members : List (String × Value))
  deriving Repr, Inhabited

/-! ## Strings -/

def hexDigit (n : Nat) : Char :=
  if n < 10 then .ofNat ('0'.toNat + n) else .ofNat ('a'.toNat + (n - 10))

/-- A character within a string literal: quotes, backslashes and control characters
are escaped, all else stands for itself. -/
def escapeChar (c : Char) : List Char :=
  if c = '"' then ['\\', '"']
  else if c = '\\' then ['\\', '\\']
  else if c = '\n' then ['\\', 'n']
  else if c = '\r' then ['\\', 'r']
  else if c = '\t' then ['\\', 't']
  else if c = '\x08' then ['\\', 'b']
  else if c = '\x0c' then ['\\', 'f']
  else if c.toNat < 0x20 then
    ['\\', 'u', '0', '0', hexDigit (c.toNat / 16), hexDigit (c.toNat % 16)]
  else [c]

def quote (s : String) : String :=
  "\"" ++ String.ofList (s.toList.flatMap escapeChar) ++ "\""

/-! ## The compact text -/

namespace Value

mutual

def compact : Value → String
  | null => "null"
  | bool true => "true"
  | bool false => "false"
  | number n => toString n
  | string s => quote s
  | array items => "[" ++ ",".intercalate (compactItems items) ++ "]"
  | object members => "\x7b" ++ ",".intercalate (compactMembers members) ++ "\x7d"

def compactItems : List Value → List String
  | [] => []
  | v :: vs => v.compact :: compactItems vs

def compactMembers : List (String × Value) → List String
  | [] => []
  | (k, v) :: ms => (quote k ++ ":" ++ v.compact) :: compactMembers ms

end

/-! ## The indented text -/

/-- A new line whose text starts `depth` levels in. -/
def newline (depth : Nat) : String :=
  "\n" ++ String.ofList (List.replicate (2 * depth) ' ')

mutual

def indentedAt (depth : Nat) : Value → String
  | null => "null"
  | bool true => "true"
  | bool false => "false"
  | number n => toString n
  | string s => quote s
  | array [] => "[]"
  | array items =>
    "[" ++ ",".intercalate (indentedItems (depth + 1) items) ++ newline depth ++ "]"
  | object [] => "\x7b\x7d"
  | object members =>
    "\x7b" ++ ",".intercalate (indentedMembers (depth + 1) members) ++ newline depth ++ "\x7d"

def indentedItems (depth : Nat) : List Value → List String
  | [] => []
  | v :: vs => (newline depth ++ v.indentedAt depth) :: indentedItems depth vs

def indentedMembers (depth : Nat) : List (String × Value) → List String
  | [] => []
  | (k, v) :: ms =>
    (newline depth ++ quote k ++ ": " ++ v.indentedAt depth) :: indentedMembers depth ms

end

def indented (v : Value) : String :=
  v.indentedAt 0

end Value

end OpLint.Json
