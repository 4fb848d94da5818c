import Rubify.Grammar.Reader
import Rubify.Syntax.Expr

/-!
# Reading expressions (§6)

An expression node of any shape is read as the texts of its leaves. Type arguments are dropped, and
the comparison and shift operators that arrive as single characters are put together again.

The plain dialect knows no operators: every child of its expressions is one token.
-/

namespace Rubify.Grammar

open MonadWalk Reader Syntax

variable {n : Node}

/-- How statements and expressions are read and written. -/
inductive Dialect
  /-- Java statements and expressions, written as Ruby. -/
  | ruby
  /-- Bare tokens, kept as they are. -/
  | plain
  deriving DecidableEq, Repr

/-- The operators that begin with `>`, by their tokens. -/
def greaterOperators : List (List String) :=
  [[">", ">", ">", "="], [">", ">", "="], [">", ">", ">"], [">", ">"], [">", "="], [">"]]

/-- The operators that begin with `<`, by their tokens. -/
def lessOperators : List (List String) :=
  [["<", "<", "="], ["<", "<"], ["<", "="], ["<"]]

/-- The operators that a token can begin, if it can begin a longer one. -/
def operators? (token : String) : Option (List (List String)) :=
  if token = ">" then some greaterOperators
  else if token = "<" then some lessOperators
  else none

/-- The tokens below a node of an expression. -/
def tokensIn (n : Node) : Reader n (List String) := do
  let parts ← gather do
    match ← peek? with
    | none => return none
    | some next =>
      if next.kind = "typeArguments" then
        let _ ← inside [next.kind] fun c hc =>
          have := Node.count_lt_of_mem hc
          tokensIn c
        return some []
      else if !next.isLeaf then
        let tokens ← inside [next.kind] fun c hc =>
          have := Node.count_lt_of_mem hc
          tokensIn c
        return some tokens
      else
        match operators? next.kind with
        | some options => return some (← multiMatch options).toList
        | none => return some [← expectText [next.kind]]
  return parts.flatten
termination_by n.count

/-- The tokens of a node all of whose children are tokens. -/
def plainTokens : Reader n (List String) :=
  gather do
    match ← peekKind? with
    | none => return none
    | some kind => return some (← expectText [kind])

/-- The expression that tokens spell. -/
def spelled (tokens : List String) : Reader n Expr :=
  match Expr.ofTokens tokens with
  | .ok e => return e
  | .error op => unsupported (innerStepText op tokens)

/-- An expression. -/
def expression (d : Dialect) : Reader n Expr :=
  match d with
  | .ruby => do spelled (← inside ["expression"] fun c _ => tokensIn c)
  | .plain => return .bare (← inside ["expression"] fun _ _ => plainTokens)

end Rubify.Grammar
