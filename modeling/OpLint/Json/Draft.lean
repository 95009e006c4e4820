import OpLint.Json.Token

/-!
# JSON texts, read as far as they go

A reader that knows what it expects must meet the problems of a text in the order
in which the text has them, be they faults of the grammar or values of the wrong
shape. A draft makes that possible without reading twice. It is the tree of a text
up to the first place where the grammar fails; that place is left `broken` or
`cut`, and nothing follows it. Whoever walks a draft from left to right meets
every problem in its order.
-/

namespace OpLint.Json

/-- How the members or items of a draft end: at their closing bracket, or where the
grammar fails. -/
inductive Ending
  | closed
  | cut
  deriving DecidableEq, Repr, Inhabited

/-- A key of an object; none when it holds half a surrogate pair. -/
abbrev Key := Option String

/-- The tree of a text. An `unreadable` value is well formed and denotes nothing. -/
inductive Draft
  | broken
  | unreadable
  | null
  | bool (b : Bool)
  | number (n : Decimal.Number)
  | string (s : String)
  | array (items : List Draft) (ending : Ending)
  | object (members : List (Key × Draft)) (ending : Ending)
  deriving Repr, Inhabited

namespace Draft

/-- An array or object whose next item or member value is being read; what it holds
so far is kept with the last one first. -/
inductive Frame
  | items (seen : List Draft)
  | members (seen : List (Key × Draft)) (key : Key)

/-- What must come next. -/
inductive Awaiting
  | value
  | key (seen : List (Key × Draft))
  | colon (seen : List (Key × Draft)) (key : Key)
  /-- A value is complete; what encloses it decides. -/
  | separator (value : Draft)

/-- Ends every open frame, from the innermost one outward. -/
def cutOff (value : Draft) (frames : List Frame) : Draft :=
  frames.foldl
    (fun value frame =>
      match frame with
      | .items seen => .array (value :: seen).reverse .cut
      | .members seen key => .object ((key, value) :: seen).reverse .cut)
    value

/-- A value that is a single token. -/
def ofToken? : Token → Option Draft
  | .null => some .null
  | .bool b => some (.bool b)
  | .number n? => some (n?.elim .unreadable .number)
  | .string s? => some (s?.elim .unreadable .string)
  | _ => none

/-- Reads on from the middle of a text: the draft of the whole value, and the
tokens after it. -/
def resume (frames : List Frame) : Awaiting → List Token → Draft × List Token
  | .value, .openArray :: .closeArray :: ts => resume frames (.separator (.array [] .closed)) ts
  | .value, .openArray :: ts => resume (.items [] :: frames) .value ts
  | .value, .openObject :: .closeObject :: ts =>
    resume frames (.separator (.object [] .closed)) ts
  | .value, .openObject :: .string key :: ts => resume frames (.colon [] key) ts
  | .value, .openObject :: ts => (cutOff (.object [] .cut) frames, ts)
  | .value, t :: ts =>
    match ofToken? t with
    | some value => resume frames (.separator value) ts
    | none => (cutOff .broken frames, ts)
  | .value, [] => (cutOff .broken frames, [])
  | .key seen, .string key :: ts => resume frames (.colon seen key) ts
  | .key seen, ts => (cutOff (.object seen.reverse .cut) frames, ts)
  | .colon seen key, .colon :: ts => resume (.members seen key :: frames) .value ts
  | .colon seen key, ts => (cutOff .broken (.members seen key :: frames), ts)
  | .separator value, ts =>
    match frames, ts with
    | [], ts => (value, ts)
    | .items seen :: frames, .comma :: ts => resume (.items (value :: seen) :: frames) .value ts
    | .items seen :: frames, .closeArray :: ts =>
      resume frames (.separator (.array (value :: seen).reverse .closed)) ts
    | .items seen :: frames, ts => (cutOff (.array (value :: seen).reverse .cut) frames, ts)
    | .members seen key :: frames, .comma :: ts => resume frames (.key ((key, value) :: seen)) ts
    | .members seen key :: frames, .closeObject :: ts =>
      resume frames (.separator (.object ((key, value) :: seen).reverse .closed)) ts
    | .members seen key :: frames, ts =>
      (cutOff (.object ((key, value) :: seen).reverse .cut) frames, ts)
termination_by structural _ ts => ts

/-- The draft of a text, and whether the text ends where its value does. -/
def ofText (text : String) : Draft × Bool :=
  let (draft, rest) := resume [] .value (Token.ofText text.toList)
  (draft, rest.isEmpty)

/-- Whether the grammar holds to the end of a value. Nothing follows the place where
it fails, so the ending of the outermost brackets tells. -/
def isIntact : Draft → Bool
  | broken => false
  | array _ .cut | object _ .cut => false
  | _ => true

/-- The members up to the first key that is unreadable, and how they end. Whoever
asks for every key gets no further. -/
def legible : List (Key × Draft) → Ending → List (String × Draft) × Ending
  | [], ending => ([], ending)
  | (none, _) :: _, _ => ([], .cut)
  | (some key, d) :: members, ending =>
    let (members, ending) := legible members ending
    ((key, d) :: members, ending)

/-- Where every key is readable nothing is lost. -/
theorem legible_map_some (members : List (String × Draft)) (ending : Ending) :
    legible (members.map fun (key, d) => (some key, d)) ending = (members, ending) := by
  induction members with
  | nil => rfl
  | cons member members ih => simp [legible, ih]

mutual

/-- Whether a value can be kept for later: it is intact, everything in it is
readable, and fewer than `depth` brackets are nested. -/
def isKeepable (depth : Nat) : Draft → Bool
  | broken | unreadable => false
  | array items .closed => match depth with
    | 0 | 1 => false
    | depth + 1 => areKeepable depth items
  | object members .closed => match depth with
    | 0 | 1 => false
    | depth + 1 => haveKeepable depth members
  | array _ .cut | object _ .cut => false
  | _ => true

def areKeepable (depth : Nat) : List Draft → Bool
  | [] => true
  | d :: ds => d.isKeepable depth && areKeepable depth ds

def haveKeepable (depth : Nat) : List (Key × Draft) → Bool
  | [] => true
  | (key, d) :: ms => key.isSome && d.isKeepable depth && haveKeepable depth ms

end

end Draft

end OpLint.Json
