import Rubify.Tree.Lookahead

/-!
# Walking a tree (§4.1)

A walk holds a cursor for every node that has been entered and not left: what is left of its
children. Comments that were passed wait in a queue until someone takes them. Entering a node takes
it from its siblings; leaving it wants all its children taken. A failing operation keeps what
happened before it failed.

The walk is the state of `WalkT`, over any other effects `μ`.
-/

namespace Rubify

/-- A position among the children of one node. -/
structure Cursor where
  /-- The kind of the node. -/
  parent : String
  /-- What is left of its children. -/
  left : List Node

/-- A position in a tree. -/
structure Walk where
  /-- The position above the topmost node. -/
  root : Cursor
  /-- The nodes entered and not left, the innermost first. -/
  stack : List Cursor
  /-- The comments passed and not taken. -/
  comments : List String

namespace Walk

/-- The walk in front of a tree. -/
def start (tree : Node) : Walk :=
  ⟨⟨Node.aboveRoot, [tree]⟩, [], []⟩

/-- The cursor of the innermost node entered. -/
def top (w : Walk) : Cursor :=
  w.stack.headD w.root

/-- The walk with another list left at the innermost node entered. -/
def withLeft (w : Walk) (left : List Node) : Walk :=
  match w.stack with
  | [] => { w with root := { w.root with left } }
  | c :: below => { w with stack := { c with left } :: below }

/-- The number of nodes not taken yet. -/
def size (w : Walk) : Nat :=
  Node.countAll (w.root.left ++ w.stack.flatMap Cursor.left)

/-- Ends a walk: the topmost node must have been taken. Gives the comments that nobody took. -/
def finish (w : Walk) : Except MatchError (List String) :=
  (Node.leave w.root.parent w.root.left).map (w.comments ++ ·)

end Walk

/-- Computations on a walk that can fail, over effects `μ`. -/
abbrev WalkT (μ : Type → Type) := ExceptT MatchError (StateT Walk μ)

namespace WalkT

variable {μ : Type → Type} [Monad μ] {α : Type}

/-- The comments passed since they were last taken. -/
def takeComments : WalkT μ (List String) := do
  let w ← get
  set { w with comments := [] }
  return w.comments

/-- Takes a node of one of the kinds and goes on with its children. -/
def enter (kinds : List String) : WalkT μ Unit := do
  let w ← get
  match Node.skipComments w.top.left with
  | (texts, n :: rest) =>
    if kinds.contains n.kind then
      let w := w.withLeft rest
      set { w with stack := ⟨n.kind, n.children⟩ :: w.stack, comments := w.comments ++ texts }
    else throw (Node.mismatch w.top.parent w.top.left kinds)
  | (_, []) => throw (Node.mismatch w.top.parent w.top.left kinds)

/-- Leaves the node entered last, all of whose children must have been taken. -/
def leave : WalkT μ Unit := do
  let w ← get
  match w.stack with
  | [] => return
  | c :: below =>
    set { w with stack := below, comments := w.comments ++ (Node.skipComments c.left).1 }
    match Node.leave c.parent c.left with
    | .ok _ => return
    | .error e => throw e

/-- Walks the children of a node of one of the kinds with `body`. The node is left in any case; the
error of the body comes first. -/
def expectWith (kinds : List String) (body : WalkT μ α) : WalkT μ α := do
  enter kinds
  let result ← ExceptT.lift body.run
  let exit ← ExceptT.lift leave.run
  match result, exit with
  | .error e, _ => throw e
  | .ok _, .error e => throw e
  | .ok a, .ok () => return a

/-- Takes a childless node of one of the kinds and gives its kind. -/
def expect (kinds : List String) : WalkT μ String := do
  let w ← get
  expectWith kinds (return)
  return Node.found w.top.left

instance : MonadWalk (WalkT μ) where
  parent := return (← get).top.parent
  peek? := return Node.next? (← get).top.left
  expect := expect
  refuse e := throw e

/-- Walks the children of the next node with `body` if it has one of the kinds. -/
def tryMatchWith (kinds : List String) (body : WalkT μ α) : WalkT μ (Option α) := do
  if ← MonadWalk.nextIs kinds then
    let a ← expectWith kinds body
    return some a
  else
    return none

/-- Walks the children of consecutive nodes of a kind with `body`, at most `bound` times. -/
def loopMatchUpTo (kind : String) (body : WalkT μ Unit) : Nat → WalkT μ Nat
  | 0 => return 0
  | bound + 1 => do
    match ← tryMatchWith [kind] body with
    | none => return 0
    | some () => return (← loopMatchUpTo kind body bound) + 1

/-- Walks the children of consecutive nodes of a kind with `body`; gives how many there were. Every
round takes a node, so there are no more rounds than nodes. -/
def loopMatch (kind : String) (body : WalkT μ Unit) : WalkT μ Nat := do
  loopMatchUpTo kind body (← get).size

end WalkT

end Rubify
