import Rubify.Text.Quoted
import Rubify.Tree.Node

/-!
# What is left of a sibling list (§3)

Walking the children of a node means holding what is left of them. Comments at the front of that
list have been reached but not passed: lookahead does not see them, and they are handed over when
the node behind them is taken or when the list is left. `MatchError` says how a tree can fail to
have the expected shape.
-/

namespace Rubify

/-- How a tree fails to have the expected shape. -/
inductive MatchError
  /-- The next node of `parent` is none of the expected kinds. -/
  | mismatch (parent found : String) (expected : List String)
  /-- Children of `parent` were left over. -/
  | unconsumed (parent : String) (remaining : List String)
  /-- The next node of `parent` is not an identifier. -/
  | expectedName (parent found : String)
  deriving DecidableEq, Repr

/-- The text of the error. -/
def MatchError.message : MatchError → String
  | .mismatch parent found expected =>
    "wrong match in `" ++ parent ++ "`: found `" ++ found ++ "` instead of one of " ++
      Text.quotedList expected
  | .unconsumed parent remaining =>
    "children of `" ++ parent ++ "` not processed: " ++ Text.quotedList remaining
  | .expectedName parent found =>
    "expected a name in `" ++ parent ++ "`, found `" ++ found ++ "`"

namespace Node

/-- What error texts show where no node is left. -/
def endOfInput : String := "<end of input>"

/-- What error texts show as the parent of the topmost node. -/
def aboveRoot : String := "<root>"

/-- The texts of the comments at the front, and the nodes from the first other one on. -/
def skipComments : List Node → List String × List Node
  | [] => ([], [])
  | n :: rest =>
    if n.isComment then (n.text :: (skipComments rest).1, (skipComments rest).2)
    else ([], n :: rest)

/-- The next node that is not a comment. -/
def next? (left : List Node) : Option Node :=
  (skipComments left).2.head?

/-- The kind of the next node. -/
def nextKind? (left : List Node) : Option String :=
  (next? left).map Node.kind

/-- The kind of the next node, as error texts show it. -/
def found (left : List Node) : String :=
  (nextKind? left).getD endOfInput

/-- The error that the next of the children of `parent` is none of `kinds`. -/
def mismatch (parent : String) (left : List Node) (kinds : List String) : MatchError :=
  .mismatch parent (found left) kinds

/-- Leaves a sibling list: the comments at its end, or the error that nodes are left over. -/
def leave (parent : String) (left : List Node) : Except MatchError (List String) :=
  match skipComments left with
  | (texts, []) => .ok texts
  | (_, remaining) => .error (.unconsumed parent (remaining.map Node.kind))

theorem skipComments_suffix (left : List Node) : (skipComments left).2 <:+ left := by
  induction left with
  | nil => exact List.suffix_refl _
  | cons n rest ih =>
    rw [skipComments]
    split
    · exact ih.trans (List.suffix_cons n rest)
    · exact List.suffix_refl _

end Node

end Rubify
