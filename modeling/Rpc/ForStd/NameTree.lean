import Mathlib.Data.List.Induction

/-!
# Trees of named nodes

A node is the list of the names on the way to it, and a tree is a set of nodes that has the
parent of each: directories, or the nodes of a coordination service.  A node is created below
one that exists.

* `mem_take`: every ancestor of a node is in the tree.
* `mem_create`: what there is after a node was created, or was not.
-/

/-- A finite tree: the root, and with each node its parent. -/
structure NameTree (κ : Type) where
  nodes : List (List κ)
  root : [] ∈ nodes
  closed : ∀ path ∈ nodes, path.dropLast ∈ nodes

/-- Whether a node is created. -/
inductive Creation where
  | created
  | noParent
  | nodeExists
  deriving DecidableEq, Repr

namespace NameTree

variable {κ : Type}

/-- The tree with only a root. -/
def empty : NameTree κ where
  nodes := [[]]
  root := List.mem_singleton.mpr rfl
  closed := by simp

/-- Every ancestor of a node is in the tree. -/
theorem mem_take (t : NameTree κ) {path : List κ} (h : path ∈ t.nodes) (k : Nat) :
    path.take k ∈ t.nodes := by
  induction path using List.reverseRecOn with
  | nil =>
    rw [List.take_nil]
    exact h
  | append_singleton path name ih =>
    by_cases hk : k ≤ path.length
    · have hparent := t.closed _ h
      rw [List.dropLast_concat] at hparent
      rw [List.take_append_of_le_length hk]
      exact ih hparent
    · rw [List.take_of_length_le (by simp; omega)]
      exact h

/-- The tree with one more node. -/
def insert (t : NameTree κ) (path : List κ) (h : path.dropLast ∈ t.nodes) : NameTree κ where
  nodes := t.nodes ++ [path]
  root := List.mem_append_left _ t.root
  closed := by
    intro q hq
    rw [List.mem_append, List.mem_singleton] at hq ⊢
    obtain hq | rfl := hq
    · exact .inl (t.closed q hq)
    · exact .inl h

variable [DecidableEq κ]

/-- Create a node: its parent must exist, and the node must not. -/
def create (t : NameTree κ) (path : List κ) : NameTree κ × Creation :=
  if path ∈ t.nodes then (t, .nodeExists)
  else if h : path.dropLast ∈ t.nodes then (t.insert path h, .created)
  else (t, .noParent)

/-- Nodes are created below nodes that exist. -/
theorem create_eq_created {t : NameTree κ} {path : List κ} :
    (t.create path).2 = .created ↔ path ∉ t.nodes ∧ path.dropLast ∈ t.nodes := by
  unfold create
  split
  · simp [*]
  · split <;> simp [*]

/-- The nodes there are afterwards. -/
theorem mem_create {t : NameTree κ} {path q : List κ} :
    q ∈ (t.create path).1.nodes ↔ q ∈ t.nodes ∨ q = path ∧ path.dropLast ∈ t.nodes := by
  unfold create
  split
  · rename_i hpath
    constructor
    · exact .inl
    · rintro (hq | ⟨rfl, -⟩)
      · exact hq
      · exact hpath
  · split
    · rename_i hparent
      simp [insert, hparent]
    · rename_i hparent
      simp [hparent]

/-- A node exists after it was to be created if and only if its parent did. -/
theorem mem_create_self {t : NameTree κ} {path : List κ} :
    path ∈ (t.create path).1.nodes ↔ path.dropLast ∈ t.nodes := by
  rw [mem_create]
  constructor
  · rintro (hpath | ⟨-, hparent⟩)
    · exact t.closed path hpath
    · exact hparent
  · exact fun hparent => .inr ⟨rfl, hparent⟩

end NameTree
