import Rubify.Tree.Lookahead

/-!
# Reading the children of a node (§4.1)

A `Reader n` takes children of `n` from the left and produces what they mean, or fails; the comments
it passes wait until `takeComments`. `inside` reads the children of a child with a reader of that
child's own, and wants all of them taken. The position of a reader is a suffix of the children of
its node, so a grammar can be defined by recursion on nodes: what is read inside a child is read
from a smaller tree (`Node.count_lt_of_mem`).
-/

namespace Rubify

/-- Why a compilation unit cannot be read. -/
inductive BuildError
  /-- The tree does not have the shape of the grammar. -/
  | shape (e : MatchError)
  /-- A construct of the grammar that has no counterpart. -/
  | unsupported (construct : String)
  deriving DecidableEq, Repr

/-- The text of the error. -/
def BuildError.message : BuildError → String
  | .shape e => e.message
  | .unsupported construct => "unsupported construct: " ++ construct

/-- A position among the children of a node. -/
structure Place (n : Node) where
  /-- What is left of the children. -/
  left : List Node
  within : left <:+ n.children
  /-- Comments passed and not taken. -/
  comments : List String

/-- Computations that read the children of `n`. -/
abbrev Reader (n : Node) := StateT (Place n) (Except BuildError)

namespace Reader

variable {n : Node} {α : Type}

/-- Takes a child of one of the kinds and reads its children with `body`. -/
def inside (kinds : List String) (body : (c : Node) → c ∈ n.children → Reader c α) : Reader n α :=
  fun p =>
    match h : (Node.skipComments p.left).2 with
    | [] => .error (.shape (Node.mismatch n.kind p.left kinds))
    | c :: rest =>
      have suffix : c :: rest <:+ n.children :=
        (h ▸ Node.skipComments_suffix p.left).trans p.within
      if kinds.contains c.kind then
        match body c (suffix.subset List.mem_cons_self)
            ⟨c.children, List.suffix_refl _, p.comments ++ (Node.skipComments p.left).1⟩ with
        | .error e => .error e
        | .ok (a, q) =>
          match Node.leave c.kind q.left with
          | .error e => .error (.shape e)
          | .ok texts =>
            .ok (a, ⟨rest, (List.suffix_cons c rest).trans suffix, q.comments ++ texts⟩)
      else .error (.shape (Node.mismatch n.kind p.left kinds))

instance : MonadWalk (Reader n) where
  parent := return n.kind
  peek? := return Node.next? (← get).left
  expect kinds := inside kinds fun c _ => return c.kind
  refuse e := throw (.shape e)

/-- Fails on a construct without counterpart. -/
def unsupported (construct : String) : Reader n α :=
  throw (.unsupported construct)

/-- Takes a childless child of the given kind. -/
def token (kind : String) : Reader n Unit := do
  let _ ← MonadWalk.expect [kind]

/-- The comments passed since they were last taken. -/
def takeComments : Reader n (List String) := do
  let p ← get
  set { p with comments := [] }
  return p.comments

/-- Repeats a step until it gives nothing. A round that takes no child is the last one. -/
def repeating (step : Reader n (Option α)) (p : Place n) : Except BuildError (List α × Place n) :=
  match step p with
  | .error e => .error e
  | .ok (none, q) => .ok ([], q)
  | .ok (some a, q) =>
    if q.left.length < p.left.length then
      match repeating step q with
      | .error e => .error e
      | .ok (more, r) => .ok (a :: more, r)
    else .ok ([a], q)
termination_by p.left.length

/-- Repeats a step until it gives nothing, and gathers what it gave. -/
def gather (step : Reader n (Option α)) : Reader n (List α) :=
  repeating step

/-- Reads consecutive children of a kind. -/
def many (kind : String) (body : (c : Node) → c ∈ n.children → Reader c α) : Reader n (List α) :=
  gather do
    if ← MonadWalk.nextIs [kind] then
      let a ← inside [kind] body
      return some a
    else
      return none

/-- Reads one item, and a further one behind every separator. -/
def separated (separator : String) (item : Reader n α) : Reader n (List α) := do
  let first ← item
  let more ← gather do
    if ← MonadWalk.tryToken separator then
      let a ← item
      return some a
    else
      return none
  return first :: more

/-- Reads a child if it has the given kind. -/
def optional (kind : String) (body : (c : Node) → c ∈ n.children → Reader c α) :
    Reader n (Option α) := do
  if ← MonadWalk.nextIs [kind] then
    let a ← inside [kind] body
    return some a
  else
    return none

/-- The node above a tree. -/
def above (tree : Node) : Node :=
  ⟨Node.aboveRoot, none, [tree]⟩

/-- Reads a tree and nothing else; also gives the comments that nobody took. -/
def readTree (tree : Node) (r : Reader (above tree) α) : Except BuildError (α × List String) :=
  match r ⟨[tree], List.suffix_refl _, []⟩ with
  | .error e => .error e
  | .ok (a, p) =>
    match Node.leave Node.aboveRoot p.left with
    | .error e => .error (.shape e)
    | .ok texts => .ok (a, p.comments ++ texts)

end Reader

end Rubify
