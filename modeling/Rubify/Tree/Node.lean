/-!
# Parse trees (§3)

A node has a kind, an optional payload and children. Rules of the grammar use their name as kind,
keywords and punctuation their own text; identifiers and literals keep the source text as payload.
Line comments are nodes too and may stand between any two siblings.
-/

namespace Rubify

/-- A node of a parse tree. -/
structure Node where
  kind : String
  payload : Option String := none
  children : List Node := []

namespace Node

/-- The text of a leaf: its payload, or its kind. -/
def text (n : Node) : String :=
  n.payload.getD n.kind

/-- Whether the node has no children. -/
def isLeaf (n : Node) : Bool :=
  n.children.isEmpty

/-- Whether the node is a line comment. -/
def isComment (n : Node) : Bool :=
  n.kind = "line_comment"

mutual

/-- The number of nodes of the tree. -/
def count : Node → Nat
  | ⟨_, _, children⟩ => 1 + countAll children

/-- The number of nodes of several trees. -/
def countAll : List Node → Nat
  | [] => 0
  | n :: rest => n.count + countAll rest

end

theorem count_eq (n : Node) : n.count = 1 + countAll n.children := by
  cases n; rfl

theorem count_le_countAll {n : Node} {ns : List Node} (h : n ∈ ns) : n.count ≤ countAll ns := by
  induction ns with
  | nil => cases h
  | cons m ms ih =>
    rw [countAll]
    rcases List.mem_cons.1 h with rfl | h
    · omega
    · have := ih h; omega

/-- A child is a smaller tree. -/
theorem count_lt_of_mem {c n : Node} (h : c ∈ n.children) : c.count < n.count := by
  have := count_le_countAll h
  rw [count_eq n]; omega

end Node

end Rubify
