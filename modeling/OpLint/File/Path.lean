/-!
# Paths

A path is kept as it was written. Two paths are compared by their components:
blank ones and single dots between slashes do not count, two dots do. So paths
that are written differently may be the same.
-/

namespace OpLint

structure Path where
  text : String
  deriving DecidableEq, Repr, Inhabited

/-- A component of a path, in ascending order of kinds. -/
inductive Component
  | root
  /-- A dot in front of everything else. -/
  | here
  | up
  | name (text : String)
  deriving DecidableEq, Repr, Inhabited

namespace Component

def rank : Component → Nat
  | root => 0
  | here => 1
  | up => 2
  | name _ => 3

def text : Component → String
  | name text => text
  | _ => ""

/-- Components are ordered by kind, and names among each other as texts. -/
def order (a b : Component) : Ordering :=
  (compare a.rank b.rank).then (compare a.text b.text)

def ofSegment (segment : String) : Component :=
  if segment = ".." then up else name segment

end Component

namespace Path

def isAbsolute (p : Path) : Bool :=
  p.text.startsWith "/"

def segments (p : Path) : List String :=
  (p.text.toList.splitOn '/').map String.ofList

/-- Segments that are no components by themselves. -/
def isIdle (segment : String) : Bool :=
  segment = "" || segment = "."

/-- What the text in front of the other components stands for. -/
def leading (p : Path) : List Component :=
  if p.isAbsolute then [.root]
  else if p.segments.head? = some "." then [.here]
  else []

def components (p : Path) : List Component :=
  p.leading ++ (p.segments.filter (!isIdle ·)).map .ofSegment

/-- Component by component; a path comes before those that go on from it. -/
def orderComponents : List Component → List Component → Ordering
  | [], [] => .eq
  | [], _ :: _ => .lt
  | _ :: _, [] => .gt
  | a :: as, b :: bs => (a.order b).then (orderComponents as bs)

def order (a b : Path) : Ordering :=
  orderComponents a.components b.components

/-- Whether two texts name the same path. -/
def same (a b : Path) : Bool :=
  a.components = b.components

/-- The path `p` as seen from `base`. -/
def join (base p : Path) : Path :=
  if p.isAbsolute || base.text.isEmpty then p
  else if base.text.endsWith "/" then ⟨base.text ++ p.text⟩
  else ⟨base.text ++ "/" ++ p.text⟩

/-- A name without its extension and the extension, which starts after the last dot.
A dot in front starts none. -/
def splitExtension (name : String) : Option (String × String) :=
  match (name.toList.splitOn '.').reverse with
  | extension :: stem :: before =>
    let stem := ['.'].intercalate (stem :: before).reverse
    if stem.isEmpty then none else some (.ofList stem, .ofList extension)
  | _ => none

def extension? (name : String) : Option String :=
  (splitExtension name).map Prod.snd

end Path

end OpLint
