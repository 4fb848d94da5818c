import Rubify.Flow.Stmt

/-!
# Closing bodies (§4.3)

A body closes when control is taken not to reach its end: its last statement, trailing comments
aside, leaves, returns or raises, or is a block or an `if` that closes. The two modes differ on an
`if` without `else`: `compatible` looks at the branch that is there, `strict` never lets it close.
-/

namespace Rubify.Flow

/-- How an `if` without `else` counts towards closing. -/
inductive ClosureMode
  /-- It closes when its only branch does. -/
  | compatible
  /-- It does not close. -/
  | strict
  deriving DecidableEq, Repr

/-- Whether an `if` closes, given whether its branches do. -/
def ifCloses (mode : ClosureMode) (thenCloses : Bool) (elseCloses : Option Bool) : Bool :=
  match elseCloses, mode with
  | some closes, _ => thenCloses && closes
  | none, .strict => false
  | none, .compatible => thenCloses

mutual

/-- Whether one statement, standing last, closes its body. -/
def Stmt.closes (mode : ClosureMode) : Stmt → Bool
  | .leave _ | .return _ | .raise _ => true
  | .block body => closes mode body
  | .ifThen _ thenBranch elseBranch =>
    ifCloses mode (closes mode thenBranch) (elseCloses? mode elseBranch)
  | .comment _ | .other _ | .loop _ _ | .labeled _ _ | .case _ _ => false

/-- Whether a body closes. -/
def closes (mode : ClosureMode) : List Stmt → Bool
  | [] => false
  | s :: rest => if rest.all Stmt.isComment then s.closes mode else closes mode rest

/-- Whether an `else` branch closes, if there is one. -/
def elseCloses? (mode : ClosureMode) : Option (List Stmt) → Option Bool
  | none => none
  | some body => some (closes mode body)

end

end Rubify.Flow
