import Rubify.Flow.Stmt
import Rubify.Output.Layout

/-!
# Laying out statements

A statement becomes lines of Ruby. Blocks are spliced into what stands around them, an `else` branch
that holds nothing but an `if` continues its chain as `elsif`, and a labelled statement is a `catch`
that its breaks `throw` to. Comments are written only when asked for.
-/

namespace Rubify.Ruby

open Rubify.Flow

/-- The text behind the two slashes that begin a Java line comment. -/
def commentBody? : List Char → Option (List Char)
  | '/' :: '/' :: rest => some rest
  | _ => none

/-- A line comment in Ruby: `// text` becomes `# text`. -/
def commentLine (text : String) : String :=
  match commentBody? text.toList with
  | some rest => "#" ++ String.ofList rest
  | none => "# " ++ text

/-- Comments, one a line, if they are written at all. -/
def commentLayout (comments : Bool) (texts : List String) : List Layout :=
  if comments then texts.map fun text => .comment (commentLine text) else []

/-- The tag that stands for leaving a label. -/
def breakTag (label : String) : String :=
  ":break_" ++ label

/-- The line in front of a branch of a `case`. -/
def branchLine (labels : List CaseLabel) : String :=
  if (values labels).isEmpty then "else" else "when " ++ ", ".intercalate (values labels)

mutual

/-- The lines of a statement. -/
def stmtLayout (comments : Bool) : Stmt → List Layout
  | .comment text => commentLayout comments [text]
  | .other text => [.line text]
  | .block body => bodyLayout comments body
  | .ifThen condition thenBranch elseBranch =>
    [.line ("if " ++ condition), .indented (bodyLayout comments thenBranch)] ++
      elseLayout comments elseBranch ++ [.line "end"]
  | .loop condition body =>
    [.line ("while " ++ condition), .indented (bodyLayout comments body), .line "end"]
  | .labeled label body =>
    [.line ("catch(" ++ breakTag label ++ ") do"), .indented (bodyLayout comments body),
      .line "end"]
  | .case value branches =>
    .line ("case " ++ value) :: branchesLayout comments branches ++ [.line "end"]
  | .leave none => [.line "break"]
  | .leave (some label) => [.line ("throw " ++ breakTag label)]
  | .return none => [.line "return"]
  | .return (some value) => [.line ("return " ++ value)]
  | .raise value => [.line ("raise " ++ value)]

/-- The lines of statements. -/
def bodyLayout (comments : Bool) : List Stmt → List Layout
  | [] => []
  | s :: rest => stmtLayout comments s ++ bodyLayout comments rest

/-- The lines of an else branch, up to the `end` of its `if`. -/
def elseLayout (comments : Bool) : Option (List Stmt) → List Layout
  | none => []
  | some [.ifThen condition thenBranch elseBranch] =>
    [.line ("elsif " ++ condition), .indented (bodyLayout comments thenBranch)] ++
      elseLayout comments elseBranch
  | some body => [.line "else", .indented (bodyLayout comments body)]

/-- The lines of the branches of a `case`. -/
def branchesLayout (comments : Bool) : List (Branch Stmt) → List Layout
  | [] => []
  | ⟨labels, _, body⟩ :: rest =>
    [.line (branchLine labels), .indented (bodyLayout comments body)] ++
      branchesLayout comments rest

end

/-- An else branch that is nothing but an `if` continues the chain, and any other stands below an
`else`. -/
theorem elseLayout_cases (body : List Stmt) :
    (∃ condition thenBranch elseBranch, body = [.ifThen condition thenBranch elseBranch]) ∨
      ∀ comments, elseLayout comments (some body) =
        [.line "else", .indented (bodyLayout comments body)] := by
  by_cases h : ∃ condition thenBranch elseBranch,
      body = [.ifThen condition thenBranch elseBranch]
  · exact .inl h
  · refine .inr fun comments => ?_
    rw [elseLayout]
    exact fun condition thenBranch elseBranch heq => h ⟨_, _, _, heq⟩

end Rubify.Ruby
