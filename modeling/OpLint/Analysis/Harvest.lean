import OpLint.Rule.Basic

/-!
# What callbacks give

A harvest is what some callbacks gave, in order, together with what happened while
they ran. `gather` calls a callback for every element of a list; what it gives is
the concatenation, so nothing that one callback does reaches another.
-/

namespace OpLint

/-- What happened while callbacks ran. -/
structure Effects where
  /-- How many of them failed. -/
  faults : Nat
  /-- Whether one of them asked for the analysis to be cancelled. -/
  cancels : Bool
  events : List Event

namespace Effects

def none : Effects := ⟨0, false, []⟩

def andThen (a b : Effects) : Effects :=
  ⟨a.faults + b.faults, a.cancels || b.cancels, a.events ++ b.events⟩

end Effects

/-- What happened in a callback. A failure counts once and is logged after whatever
the callback logged itself. -/
def Response.effects {α : Type} (r : Response α) (failed : String → Event) : Effects where
  faults := if r.fault.isSome then 1 else 0
  cancels := r.cancels
  events := r.events ++ r.fault.toList.map fun fault => failed fault.message

structure Harvest (α : Type) where
  items : List α
  effects : Effects

namespace Harvest

variable {α β : Type}

def none : Harvest α := ⟨[], .none⟩

def append (a b : Harvest α) : Harvest α :=
  ⟨a.items ++ b.items, a.effects.andThen b.effects⟩

def gather (f : β → Harvest α) : List β → Harvest α
  | [] => none
  | b :: bs => (f b).append (gather f bs)

theorem items_gather (f : β → Harvest α) (bs : List β) :
    (gather f bs).items = bs.flatMap fun b => (f b).items := by
  induction bs with
  | nil => rfl
  | cons b bs ih => simp [gather, append, ih]

end Harvest

end OpLint
