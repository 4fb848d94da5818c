import Rubify.Flow.Closure

/-!
# Switches without fall-through (§4.3)

A Java `switch` group falls through into the next group unless it closes; a branch of the target's
`case` never does. `normalize` gives every switch of a body, at any depth, closed branches:

* `collect` normalises the statements of a group, decides whether they close it, and drops the
  unlabelled break that would now be redundant at the end of a closing group;
* `SwitchFold` goes through the groups in order. Each group opens a branch for its values and one for
  a default label, its statements are added to every branch that is open, and one that closes leaves
  no branch open. In the end the default branch comes last;
* `labelExits` wraps a branch that still leaves the switch early in a statement labelled
  `exitLabel`, and points those breaks at it.

A switch that already has a closed branch, or two groups with a default label, is refused.
-/

namespace Rubify.Flow

/-- Why a body cannot be normalised. -/
inductive FlowError
  /-- A branch was closed before it was visited. -/
  | closedBranch
  /-- Two groups of one switch have a default label. -/
  | secondDefault
  deriving DecidableEq, Repr

/-- The text of the error. -/
def FlowError.message : FlowError → String
  | .closedBranch => "control-flow invariant violated: case branch visited after it was closed"
  | .secondDefault => "control-flow invariant violated: switch has more than one default label"

/-- Label of the statement around a branch that leaves its switch early. -/
def exitLabel : String := "switch"

/-! ## Breaks that leave the switch -/

mutual

/-- Whether a statement holds an unlabelled break that leaves the switch around it. Loops and inner
switches own the breaks inside them. -/
def Stmt.exits : Stmt → Bool
  | .leave none => true
  | .block body | .labeled _ body => exits body
  | .ifThen _ thenBranch elseBranch => exits thenBranch || elseExits elseBranch
  | .leave (some _) | .comment _ | .other _ | .loop _ _ | .case _ _ | .return _ | .raise _ => false

/-- Whether some statement of a body leaves the switch around it. -/
def exits : List Stmt → Bool
  | [] => false
  | s :: rest => s.exits || exits rest

/-- Whether an `else` branch leaves the switch around it. -/
def elseExits : Option (List Stmt) → Bool
  | none => false
  | some body => exits body

end

mutual

/-- The statement with its breaks out of the switch pointed at `exitLabel`. -/
def Stmt.retarget : Stmt → Stmt
  | .leave none => .leave (some exitLabel)
  | .block body => .block (retarget body)
  | .labeled label body => .labeled label (retarget body)
  | .ifThen condition thenBranch elseBranch =>
    .ifThen condition (retarget thenBranch) (elseRetarget elseBranch)
  | .leave (some label) => .leave (some label)
  | .comment text => .comment text
  | .other text => .other text
  | .loop condition body => .loop condition body
  | .case value branches => .case value branches
  | .return value => .return value
  | .raise value => .raise value

/-- A body with its breaks out of the switch pointed at `exitLabel`. -/
def retarget : List Stmt → List Stmt
  | [] => []
  | s :: rest => s.retarget :: retarget rest

/-- An `else` branch with its breaks out of the switch pointed at `exitLabel`. -/
def elseRetarget : Option (List Stmt) → Option (List Stmt)
  | none => none
  | some body => some (retarget body)

end

/-- The body of a branch, wrapped if it leaves its switch early. -/
def labelExits (body : List Stmt) : List Stmt :=
  if exits body then [.labeled exitLabel (retarget body)] else body

/-! ## Merging the groups of one switch -/

/-- Where a branch is kept while the groups are merged. -/
inductive Slot
  /-- Among the branches with values, by its place. -/
  | regular (index : Nat)
  /-- As the default branch. -/
  | otherwise
  deriving DecidableEq, Repr

/-- The branch with more statements at its end. -/
def Branch.extend (b : Branch Stmt) (stmts : List Stmt) : Branch Stmt :=
  { b with body := b.body ++ stmts }

/-- The branch, with its body wrapped if it leaves the switch early. -/
def Branch.labelExits (b : Branch Stmt) : Branch Stmt :=
  { b with body := Flow.labelExits b.body }

/-- The branches of the groups so far, those with values in order, and which of them are open to the
statements of the next group. -/
structure SwitchFold where
  regular : List (Branch Stmt) := []
  otherwise : Option (Branch Stmt) := none
  openSlots : List Slot := []

namespace SwitchFold

/-- Opens the default branch. -/
def openDefault (fold : SwitchFold) : SwitchFold :=
  { fold with
    otherwise := some ⟨[.otherwise], true, []⟩
    openSlots := fold.openSlots ++ [.otherwise] }

/-- Opens one more branch with values. -/
def openValues (fold : SwitchFold) (texts : List String) : SwitchFold :=
  { fold with
    regular := fold.regular ++ [⟨texts.map .value, true, []⟩]
    openSlots := fold.openSlots ++ [.regular fold.regular.length] }

/-- Opens the branches that the labels of a group ask for. -/
def openLabels (fold : SwitchFold) (labels : List CaseLabel) : SwitchFold :=
  let fold := if labels.contains .otherwise then fold.openDefault else fold
  if (values labels).isEmpty then fold else fold.openValues (values labels)

/-- Adds statements to the branch in a slot. -/
def extendSlot (stmts : List Stmt) (fold : SwitchFold) : Slot → SwitchFold
  | .regular index => { fold with regular := fold.regular.modify index (·.extend stmts) }
  | .otherwise => { fold with otherwise := fold.otherwise.map (·.extend stmts) }

/-- Adds the statements of a group to every open branch; if they close it, no branch stays open. -/
def extend (fold : SwitchFold) (stmts : List Stmt) (ends : Bool) : SwitchFold :=
  let fold := fold.openSlots.foldl (extendSlot stmts) fold
  if ends then { fold with openSlots := [] } else fold

/-- The branches of the whole switch, the default last. -/
def finish (fold : SwitchFold) : List (Branch Stmt) :=
  (fold.regular ++ fold.otherwise.toList).map Branch.labelExits

end SwitchFold

/-! ## Normalising bodies -/

mutual

/-- Normalises one statement. -/
def Stmt.normalize (mode : ClosureMode) : Stmt → Except FlowError Stmt
  | .block body => return .block (← normalize mode body)
  | .ifThen condition thenBranch elseBranch => do
    let thenBranch ← normalize mode thenBranch
    return .ifThen condition thenBranch (← elseNormalize mode elseBranch)
  | .loop condition body => return .loop condition (← normalize mode body)
  | .labeled label body => return .labeled label (← normalize mode body)
  | .case value branches => return .case value (← foldGroups mode {} branches).finish
  | .comment text => return .comment text
  | .other text => return .other text
  | .leave label => return .leave label
  | .return value => return .return value
  | .raise value => return .raise value

/-- Normalises every statement of a body. -/
def normalize (mode : ClosureMode) : List Stmt → Except FlowError (List Stmt)
  | [] => return []
  | s :: rest => do
    let s ← s.normalize mode
    return s :: (← normalize mode rest)

/-- Normalises an `else` branch. -/
def elseNormalize (mode : ClosureMode) : Option (List Stmt) → Except FlowError (Option (List Stmt))
  | none => return none
  | some body => return some (← normalize mode body)

/-- Merges the groups of a switch in order into the branches so far. -/
def foldGroups (mode : ClosureMode) (fold : SwitchFold) :
    List (Branch Stmt) → Except FlowError SwitchFold
  | [] => return fold
  | ⟨labels, closed, body⟩ :: rest => do
    if closed then throw .closedBranch
    if labels.contains .otherwise && fold.otherwise.isSome then throw .secondDefault
    let (stmts, ends) ← collect mode (closes mode body) body
    foldGroups mode ((fold.openLabels labels).extend stmts ends) rest

/-- Normalises a body and decides whether it closes. With `drop`, an unlabelled break in closing
position is removed, also inside a last block or `if`. -/
def collect (mode : ClosureMode) (drop : Bool) : List Stmt → Except FlowError (List Stmt × Bool)
  | [] => return ([], false)
  | s :: rest =>
    if rest.all Stmt.isComment then do
      let (last, ends) ← s.collect mode drop
      return (last ++ rest, ends)
    else do
      let s ← s.normalize mode
      let (stmts, ends) ← collect mode drop rest
      return (s :: stmts, ends)

/-- Collects the last statement of a body. -/
def Stmt.collect (mode : ClosureMode) (drop : Bool) : Stmt → Except FlowError (List Stmt × Bool)
  | .leave none => return (if drop then [] else [.leave none], true)
  | .leave (some label) => return ([.leave (some label)], true)
  | .return value => return ([.return value], true)
  | .raise value => return ([.raise value], true)
  | .block body => do
    let (stmts, ends) ← collect mode drop body
    return ([.block stmts], ends)
  | .ifThen condition thenBranch elseBranch => do
    let (thenStmts, thenEnds) ← collect mode drop thenBranch
    let (elseStmts, elseEnds) ← elseCollect mode drop elseBranch
    return ([.ifThen condition thenStmts elseStmts], ifCloses mode thenEnds elseEnds)
  | .comment text => return ([.comment text], false)
  | .other text => return ([.other text], false)
  | .loop condition body => return ([.loop condition (← normalize mode body)], false)
  | .labeled label body => return ([.labeled label (← normalize mode body)], false)
  | .case value branches =>
    return ([.case value (← foldGroups mode {} branches).finish], false)

/-- Collects an `else` branch. -/
def elseCollect (mode : ClosureMode) (drop : Bool) :
    Option (List Stmt) → Except FlowError (Option (List Stmt) × Option Bool)
  | none => return (none, none)
  | some body => do
    let (stmts, ends) ← collect mode drop body
    return (some stmts, some ends)

end

/-- A switch statement over the given groups, with closed branches. -/
def normalizeSwitch (mode : ClosureMode) (value : String) (branches : List (Branch Stmt)) :
    Except FlowError Stmt :=
  return .case value (← foldGroups mode {} branches).finish

end Rubify.Flow
