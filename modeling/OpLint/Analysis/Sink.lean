/-!
# The sink of an analysis

Bodies finish in any order, and the sink puts what they found back into the order
of the units and of the bodies within a unit. Everything that one body commits
stays in the order of its commits.

A key is meant to be two words of 32 bits. Here its parts are numbers, which comes to the same
as long as an analysis has fewer than 2 ^ 32 units and each of them fewer than 2 ^ 32 bodies.
That is assumed here and wherever a body is told from others by its key.
-/

namespace OpLint

/-- The place of a body: its unit, then its place among the unit's bodies. -/
structure BodyKey where
  unit : Nat
  body : Nat
  deriving DecidableEq, Repr, Inhabited

/-- Keys are ordered by the unit, then by the body. -/
def BodyKey.order (a b : BodyKey) : Ordering :=
  (compare a.unit b.unit).then (compare a.body b.body)

/-- What each body committed, with the keys ascending. -/
structure Sink (α : Type) where
  entries : List (BodyKey × List α)
  deriving Repr, Inhabited

namespace Sink

variable {α : Type}

def empty : Sink α := ⟨[]⟩

/-- Adds items at the end of the entry of `key`, which is made if it is not there. -/
def insert (key : BodyKey) (items : List α) : List (BodyKey × List α) → List (BodyKey × List α)
  | [] => [(key, items)]
  | (k, old) :: entries =>
    match key.order k with
    | .lt => (key, items) :: (k, old) :: entries
    | .eq => (k, old ++ items) :: entries
    | .gt => (k, old) :: insert key items entries

/-- Commits what a body found. Nothing found leaves no trace. -/
def commit (s : Sink α) (key : BodyKey) (items : List α) : Sink α :=
  if items.isEmpty then s else ⟨insert key items s.entries⟩

def size (s : Sink α) : Nat :=
  s.entries.foldr (fun (_, items) n => items.length + n) 0

def isEmpty (s : Sink α) : Bool :=
  s.size = 0

/-- All items, unit by unit and body by body. -/
def sorted (s : Sink α) : List α :=
  s.entries.flatMap Prod.snd

end Sink

end OpLint
