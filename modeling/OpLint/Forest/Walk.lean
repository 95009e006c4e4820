import OpLint.Forest.Basic

/-!
# Walking a forest

Upward, a walk follows the links to parents. Downward it follows a child only if
the child comes before the node and is linked to it, so that it stays within one
tree even where nobody checked the forest.

The downward walk is defined twice. `preorder` says by recursion what it visits;
`walk` visits it with a stack of what is still to come. Children come before their
parents, and that is what ends the recursion. What ends the walk is the number of
nodes that its stack still stands for.
-/

namespace OpLint.Forest

/-! ## Upward -/

/-- The places above `i`, from its parent to its root. -/
def ancestors (f : Forest) (i : Nat) : List Nat :=
  match f.parent? i with
  | none => []
  | some parent => if i < parent ∧ parent < f.size then parent :: f.ancestors parent else []
termination_by f.size - i

/-! ## Downward -/

/-- The children of `i` that a walk goes on to. -/
def followed (f : Forest) (i : Nat) : List Nat :=
  (f.children i).filter fun child => child < i && f.parent? child == some i

theorem lt_of_mem_followed {f : Forest} {i child : Nat} (h : child ∈ f.followed i) :
    child < i := by
  simp only [followed, List.mem_filter, Bool.and_eq_true, decide_eq_true_eq] at h
  exact h.2.1

/-- The places from `i` downward: a node, then what its children give, in order. -/
def preorder (f : Forest) (i : Nat) : List Nat :=
  i :: (f.followed i).attach.flatMap fun ⟨child, _⟩ => f.preorder child
termination_by i
decreasing_by exact lt_of_mem_followed ‹_›

theorem preorder_eq (f : Forest) (i : Nat) :
    f.preorder i = i :: (f.followed i).flatMap f.preorder := by
  rw [preorder]
  simp [List.flatMap_subtype, List.unattach_attach]

/-- The number of nodes that a stack stands for. -/
def pending (f : Forest) (stack : List Nat) : Nat :=
  (stack.flatMap f.preorder).length

/-- Visits the node on top of the stack and puts its children in its place. -/
def walk (f : Forest) : List Nat → List Nat
  | [] => []
  | i :: stack => i :: f.walk (f.followed i ++ stack)
termination_by stack => f.pending stack
decreasing_by
  simp only [pending, List.flatMap_append, List.flatMap_cons, preorder_eq f i]
  simp

/-- The places from `root` downward, none if there is no such node. -/
def descendants (f : Forest) (root : Ref) : List Nat :=
  f.walk (f.find? root).toList

end OpLint.Forest
