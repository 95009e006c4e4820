import Mathlib.Data.List.Basic
import OpLint.Proofs.Forest.Builder
import OpLint.Forest.Walk

/-!
# The trees of a forest

A tree holds its subtrees where a stored operation holds references, so what a child is
can be seen without a look-up. `tree?` is the tree that the child lists of a forest give.

In a checked forest the two ways to move about agree with it. Walking down from a node
visits its tree in pre-order; and the nodes that the parent links lead up to are those that
enclose the node in the tree. `occurrences` has both in one list: each subtree in pre-order,
with the trees strictly above it. It passes them from the top down, while the links are
followed from the bottom up.
-/

namespace OpLint

/-- A tree of operations. A child that is absent, or that is not there, is none. -/
inductive Tree
  | node (operation : Operation (Option Tree)) (span : Span)

namespace Tree

def operation : Tree → Operation (Option Tree)
  | node operation _ => operation

def span : Tree → Span
  | node _ span => span

def kind (t : Tree) : OperationKind :=
  t.operation.kind

/-- The subtrees directly below. -/
def children (t : Tree) : List Tree :=
  t.operation.refs.filterMap id

theorem sizeOf_lt_of_mem_refs {op : Operation (Option Tree)} {c : Tree} (h : some c ∈ op.refs) :
    sizeOf c < sizeOf op := by
  have hlist {cs : List (Option Tree)} (hmem : some c ∈ cs) : sizeOf c < sizeOf cs := by
    have := List.sizeOf_lt_of_mem hmem
    rw [Option.some.sizeOf_spec] at this
    omega
  have hone {c' : Option Tree} (heq : some c = c') : sizeOf c < sizeOf c' := by
    rw [← heq, Option.some.sizeOf_spec]
    omega
  cases op <;> simp only [Operation.refs, List.mem_cons, List.not_mem_nil, or_false] at h
  case block | invalid => have := hlist h; simp; omega
  case invocation | propertyReference =>
    rcases h with h | h
    · have := hone h; simp; omega
    · have := hlist h; simp; omega
  case conditional =>
    rcases h with h | h | h <;>
    · have := hone h
      simp
      omega
  case simpleAssignment | compoundAssignment | binary | loop =>
    rcases h with h | h <;>
    · have := hone h
      simp
      omega
  all_goals
    have := hone h
    simp
    omega

theorem sizeOf_lt_of_mem_children {t c : Tree} (h : c ∈ t.children) : sizeOf c < sizeOf t := by
  obtain ⟨op, span⟩ := t
  have hc : some c ∈ op.refs := by simpa [children, operation] using h
  have := sizeOf_lt_of_mem_refs hc
  simp only [node.sizeOf_spec]
  omega

/-- All subtrees in pre-order, each with the trees strictly above it, the innermost one
first. -/
def occurrences (above : List Tree) (t : Tree) : List (List Tree × Tree) :=
  (above, t) :: t.children.attach.flatMap fun ⟨c, _⟩ => occurrences (t :: above) c
termination_by sizeOf t
decreasing_by exact sizeOf_lt_of_mem_children ‹_›

theorem occurrences_eq (above : List Tree) (t : Tree) :
    t.occurrences above = (above, t) :: t.children.flatMap (occurrences (t :: above)) := by
  rw [occurrences]
  simp [List.flatMap_subtype, List.unattach_attach]

end Tree

namespace Operation

theorem map_congr {ρ σ : Type} {g h : ρ → σ} {op : Operation ρ} (heq : ∀ r ∈ op.refs, g r = h r) :
    op.map g = op.map h := by
  cases op <;> simp_all [map, refs]

end Operation

namespace Forest

/-- The tree of the node at a place. Only children that come before their parent count. -/
def tree? (f : Forest) (i : Nat) : Option Tree :=
  (f.node? i).map fun node =>
    .node (node.operation.map fun r => r.position?.bind fun child =>
      if _h : child < i then f.tree? child else none) node.span
termination_by i

/-- What a check of the forest establishes: a child is there, comes before its parent, and is
linked to it. -/
def Linked (f : Forest) : Prop :=
  ∀ parent child, child ∈ f.children parent →
    child < f.size ∧ child < parent ∧ f.parent? child = some parent

theorem lt_size_of_mem_children {f : Forest} {parent child : Nat}
    (h : child ∈ f.children parent) : parent < f.size := by
  by_contra hsize
  rw [children, node?, Array.getElem?_eq_none (Nat.not_lt.1 hsize)] at h
  cases h

theorem linkFault?_eq_none_iff {f : Forest} {c : Claim} :
    f.linkFault? c = none ↔
      c.child < f.size ∧ c.child < c.parent ∧ f.parent? c.child = some c.parent := by
  rw [linkFault?, Option.or_eq_none_iff, Claim.fault?]
  rcases Nat.lt_or_ge c.child f.size with hsize | hsize
  · rw [if_neg (Nat.not_le.2 hsize)]
    rcases Nat.lt_or_ge c.child c.parent with horder | horder
    · rw [if_neg (Nat.not_le.2 horder)]
      simp [hsize, horder, Claim.holder?]
    · rw [if_pos horder]
      simp [Nat.not_lt.2 horder]
  · rw [if_pos hsize]
    simp [Nat.not_lt.2 hsize]

theorem check_eq_ok_iff {f : Forest} : f.check = .ok () ↔ f.Linked := by
  have hnode (parent : Nat) : (f.children parent).forM (f.checkLink parent) =
      verdict ((f.children parent).findSome? fun child => f.linkFault? ⟨parent, child⟩) () :=
    forM_verdict (fun child => f.checkLink_eq ⟨parent, child⟩) _
  rw [check, forM_verdict hnode, verdict_eq_ok_iff]
  simp only [List.findSome?_eq_none_iff, linkFault?_eq_none_iff, List.mem_range, and_true]
  constructor
  · intro h parent child hchild
    refine h parent (lt_size_of_mem_children hchild) child hchild
  · intro h parent _ child hchild
    exact h parent child hchild

variable {f : Forest}

theorem tree?_eq (h : f.Linked) (i : Nat) :
    f.tree? i = (f.node? i).map fun node =>
      .node (node.operation.map fun r => r.position?.bind f.tree?) node.span := by
  rw [tree?]
  cases hnode : f.node? i with
  | none => rfl
  | some node =>
      rw [Option.map_some, Option.map_some]
      congr 2
      refine Operation.map_congr fun r hr => ?_
      cases hposition : r.position? with
      | none => rfl
      | some child =>
          have hchild : child ∈ f.children i := by
            rw [children, hnode]
            exact List.mem_filterMap.2 ⟨r, hr, hposition⟩
          exact dif_pos (h i child hchild).2.1

theorem exists_tree? (h : f.Linked) {i : Nat} (hi : i < f.size) : ∃ t, f.tree? i = some t := by
  have hnode : f.node? i = some f.nodes[i] := Array.getElem?_eq_getElem hi
  rw [tree?_eq h, hnode]
  exact ⟨_, rfl⟩

/-- In a checked forest the children of a tree are the trees of the children. -/
theorem children_tree? (h : f.Linked) {i : Nat} {t : Tree} (ht : f.tree? i = some t) :
    t.children = (f.children i).filterMap f.tree? := by
  rw [tree?_eq h] at ht
  obtain ⟨node, hnode, rfl⟩ := Option.map_eq_some_iff.1 ht
  rw [Tree.children, Tree.operation, Operation.refs_map, children, hnode, List.filterMap_map]
  show _ = (node.operation.refs.filterMap Ref.position?).filterMap f.tree?
  rw [List.filterMap_filterMap]
  rfl

/-! ## Walking a checked forest -/

theorem followed_eq (h : f.Linked) (i : Nat) : f.followed i = f.children i := by
  refine List.filter_eq_self.2 fun child hchild => ?_
  obtain ⟨-, hlt, hparent⟩ := h i child hchild
  simp [hlt, hparent]

theorem ancestors_child (h : f.Linked) {i child : Nat} (hchild : child ∈ f.children i) :
    f.ancestors child = i :: f.ancestors i := by
  obtain ⟨-, hlt, hparent⟩ := h i child hchild
  rw [ancestors, hparent]
  exact if_pos ⟨hlt, lt_size_of_mem_children hchild⟩

/-- What the walk still has to visit is the pre-order of what is on its stack. -/
theorem walk_eq (stack : List Nat) : f.walk stack = stack.flatMap f.preorder := by
  fun_induction walk f stack with
  | case1 => rfl
  | case2 i stack ih =>
      rw [ih, List.flatMap_append, List.flatMap_cons, preorder_eq f i, List.cons_append]

theorem descendants_eq {root : Nat} {r : Ref} (hroot : r.position? = some root)
    (hsize : root < f.size) : f.descendants r = f.preorder root := by
  rw [descendants, find?, hroot, Option.filter_some, if_pos (decide_eq_true hsize), walk_eq,
    Option.toList_some, List.flatMap_singleton]

/-- The trees strictly above a place. -/
def enclosing (f : Forest) (i : Nat) : List Tree :=
  (f.ancestors i).filterMap f.tree?

theorem enclosing_eq_nil {root : Nat} (hroot : f.parent? root = none) : f.enclosing root = [] := by
  rw [enclosing, ancestors, hroot]
  rfl

/-- The pre-order of a place and the parent links from there are what its tree says. -/
theorem occurrences_tree? (h : f.Linked) (i : Nat) {t : Tree} (ht : f.tree? i = some t) :
    t.occurrences (f.enclosing i) =
      (f.preorder i).filterMap fun j => (f.tree? j).map (f.enclosing j, ·) := by
  induction i using Nat.strongRecOn generalizing t with
  | ind i ih =>
      have hchild (child : Nat) (hmem : child ∈ f.children i) :
          (f.tree? child).toList.flatMap (Tree.occurrences (t :: f.enclosing i)) =
            (f.preorder child).filterMap fun j => (f.tree? j).map (f.enclosing j, ·) := by
        obtain ⟨hsize, hlt, -⟩ := h i child hmem
        obtain ⟨s, hs⟩ := exists_tree? h hsize
        have henclosing : f.enclosing child = t :: f.enclosing i := by
          rw [enclosing, ancestors_child h hmem, List.filterMap_cons_some ht, enclosing]
        rw [hs, Option.toList_some, List.flatMap_singleton, ← henclosing]
        exact ih child hlt hs
      rw [Tree.occurrences_eq, children_tree? h ht, preorder_eq, followed_eq h,
        List.filterMap_cons_some (by rw [ht]; rfl), List.filterMap_flatMap,
        List.filterMap_eq_flatMap_toList, List.flatMap_assoc]
      exact congrArg _ (List.flatMap_congr hchild)

end Forest

end OpLint
