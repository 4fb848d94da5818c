import Rubify.Tree.Siblings

/-!
# Matching with one node of lookahead (§4.1)

`MonadWalk` is what every way of walking a tree offers: the parent whose children are walked, the
next child, and taking a childless child of an expected kind. The operations here are made of
these. `multiMatch` puts an operator together that arrives as several tokens: as long as every
remaining option wants a further token one of them must follow, and once an option is complete
further tokens are taken only if they continue another option.
-/

namespace Rubify

/-- Computations that walk a tree. -/
class MonadWalk (m : Type → Type) where
  /-- The kind of the node whose children are walked. -/
  parent : m String
  /-- The next child. -/
  peek? : m (Option Node)
  /-- Takes a childless child of one of the kinds and gives its kind. -/
  expect : List String → m String
  /-- Fails. -/
  refuse {α : Type} : MatchError → m α

namespace MonadWalk

variable {m : Type → Type} [Monad m] [MonadWalk m]

/-- The kind of the next child. -/
def peekKind? : m (Option String) :=
  return (← peek?).map Node.kind

/-- Whether the next child has one of the kinds. -/
def nextIs (kinds : List String) : m Bool :=
  return (← peekKind?).any (kinds.contains ·)

/-- The error that the next child has none of the kinds. -/
def mismatch (kinds : List String) : m MatchError :=
  return .mismatch (← parent) ((← peekKind?).getD Node.endOfInput) kinds

/-- Takes a childless child if it has one of the kinds. -/
def tryMatch (kinds : List String) : m (Option String) := do
  if ← nextIs kinds then
    let kind ← expect kinds
    return some kind
  else
    return none

/-- Whether a childless child of the given kind was there to be taken. -/
def tryToken (kind : String) : m Bool :=
  return (← tryMatch [kind]).isSome

/-- Takes an identifier and gives its text. -/
def name : m String := do
  match ← peek? with
  | some n =>
    if n.kind = "Identifier" then
      let _ ← expect ["Identifier"]
      return n.text
    else refuse (.expectedName (← parent) n.kind)
  | none => refuse (.expectedName (← parent) Node.endOfInput)

/-- Takes a childless child of one of the kinds and gives its text. -/
def expectText (kinds : List String) : m String := do
  let next ← peek?
  let _ ← expect kinds
  return (next.map Node.text).getD ""

/-- The options that go on after a token, without that token. -/
def continuing (token : String) (options : List (List String)) : List (List String) :=
  options.filterMap fun
    | [] => none
    | first :: rest => if first = token then some rest else none

/-- How many tokens all options have together. -/
def tokenTotal (options : List (List String)) : Nat :=
  options.flatten.length

theorem tokenTotal_continuing_le (token : String) (options : List (List String)) :
    tokenTotal (continuing token options) ≤ tokenTotal options := by
  induction options with
  | nil => exact Nat.le_refl _
  | cons o rest ih =>
    simp only [continuing, tokenTotal, List.filterMap_cons, List.flatten_cons,
      List.length_append] at ih ⊢
    cases o with
    | nil => simpa using ih
    | cons first tail =>
      by_cases h : first = token
      · simp only [h, if_true, List.flatten_cons, List.length_append, List.length_cons]; omega
      · simp only [h, if_false]; omega

theorem tokenTotal_continuing_lt (token : String) {options : List (List String)}
    (h : options.filterMap List.head? ≠ []) :
    tokenTotal (continuing token options) < tokenTotal options := by
  induction options with
  | nil => exact absurd rfl h
  | cons o rest ih =>
    cases o with
    | nil =>
      have := ih (by simpa using h)
      simpa [continuing, tokenTotal] using this
    | cons first tail =>
      have := tokenTotal_continuing_le token rest
      simp only [continuing, tokenTotal, List.filterMap_cons, List.flatten_cons,
        List.length_append] at this ⊢
      by_cases h : first = token
      · simp only [h, if_true, List.flatten_cons, List.length_append, List.length_cons]; omega
      · simp only [h, if_false, List.length_cons]; omega

/-- Goes on with the options that are left, behind the text taken so far. -/
def multiMatchFrom (options : List (List String)) (taken : Option String) : m (Option String) :=
  if _h : options.filterMap List.head? = [] then return taken
  else do
    let wanted := options.filterMap List.head?
    let token? ← if wanted.length = options.length then some <$> expect wanted else tryMatch wanted
    match token? with
    | none => return taken
    | some token => multiMatchFrom (continuing token options) (some (taken.getD "" ++ token))
termination_by tokenTotal options
decreasing_by exact tokenTotal_continuing_lt token _h

/-- Takes one of several token sequences and gives its text; `none` if there is no option. -/
def multiMatch (options : List (List String)) : m (Option String) :=
  multiMatchFrom options none

end MonadWalk

end Rubify
