/-!
# Statements (§3)

The statements of one body, after expressions have become text. A body is a list of statements;
`case` holds the groups of a `switch`, which fall through into one another as long as they are open
and stand alone once they are closed.
-/

namespace Rubify.Flow

/-- A label of a switch group. -/
inductive CaseLabel
  | value (text : String)
  | otherwise
  deriving DecidableEq, Repr

/-- One group of a switch: its labels, whether it has been closed against falling through, and its
statements. -/
structure Branch (σ : Type) where
  labels : List CaseLabel
  closed : Bool
  body : List σ

/-- The value texts among labels, in order. -/
def values (labels : List CaseLabel) : List String :=
  labels.filterMap fun
    | .value text => some text
    | .otherwise => none

/-- Whether a group takes the values that no label names. -/
def Branch.isDefault {σ : Type} (b : Branch σ) : Bool :=
  b.labels.contains .otherwise

/-- A statement. -/
inductive Stmt
  /-- A line comment carried along. -/
  | comment (text : String)
  /-- An opaque statement of one or more lines. -/
  | other (text : String)
  | block (body : List Stmt)
  | ifThen (condition : String) (thenBranch : List Stmt) (elseBranch : Option (List Stmt))
  | loop (condition : String) (body : List Stmt)
  /-- A statement that a labelled break can leave. -/
  | labeled (label : String) (body : List Stmt)
  | case (value : String) (branches : List (Branch Stmt))
  | leave (label : Option String)
  | return (value : Option String)
  | raise (value : String)

/-- Whether a statement is a comment. -/
def Stmt.isComment : Stmt → Bool
  | .comment _ => true
  | _ => false

end Rubify.Flow
