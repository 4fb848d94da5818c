import Rubify.Tree.Lookahead

/-!
# Walking in step

All operations of `MonadWalk` are made of four: the kind of the parent, the next child, taking a
childless child, and failing. A relation between the computations of two monads that holds of these
four, and that is kept when something is done after something else, therefore holds of every operation
in the two monads (`Simulation`). A property of the computations of one monad is such a relation, too:
it does not look at the second computation.

Headline:
* **`Simulation.multiMatchFrom`**: operators that arrive as several tokens are put together in step.
-/

namespace Rubify

/-- A relation between two ways of walking a tree, under which they go in step. -/
structure Simulation (m m' : Type → Type) [Monad m] [Monad m'] [MonadWalk m] [MonadWalk m']
    (R : (α : Type) → m α → m' α → Prop) : Prop where
  pure {α : Type} (a : α) : R α (pure a) (pure a)
  bind {α β : Type} {x : m α} {x' : m' α} {f : α → m β} {f' : α → m' β} :
    R α x x' → (∀ a, R β (f a) (f' a)) → R β (x >>= f) (x' >>= f')
  parent : R String MonadWalk.parent MonadWalk.parent
  peek : R (Option Node) MonadWalk.peek? MonadWalk.peek?
  expect (kinds : List String) : R String (MonadWalk.expect kinds) (MonadWalk.expect kinds)
  refuse {α : Type} (e : MatchError) : R α (MonadWalk.refuse e) (MonadWalk.refuse e)

namespace Simulation

variable {m m' : Type → Type} [Monad m] [Monad m'] [MonadWalk m] [MonadWalk m']
  {R : (α : Type) → m α → m' α → Prop} (h : Simulation m m' R)

include h

theorem peekKind : R _ MonadWalk.peekKind? MonadWalk.peekKind? :=
  h.bind h.peek fun _ => h.pure _

theorem nextIs (kinds : List String) :
    R _ (MonadWalk.nextIs kinds) (MonadWalk.nextIs kinds) :=
  h.bind h.peekKind fun _ => h.pure _

theorem mismatch (kinds : List String) :
    R _ (MonadWalk.mismatch kinds) (MonadWalk.mismatch kinds) :=
  h.bind h.parent fun _ => h.bind h.peekKind fun _ => h.pure _

theorem tryMatch (kinds : List String) :
    R _ (MonadWalk.tryMatch kinds) (MonadWalk.tryMatch kinds) := by
  refine h.bind (h.nextIs kinds) fun next => ?_
  cases next with
  | true => exact h.bind (h.expect kinds) fun _ => h.pure _
  | false => exact h.pure none

theorem tryToken (kind : String) :
    R _ (MonadWalk.tryToken kind) (MonadWalk.tryToken kind) :=
  h.bind (h.tryMatch [kind]) fun _ => h.pure _

theorem name : R _ MonadWalk.name MonadWalk.name := by
  refine h.bind h.peek fun next => ?_
  cases next with
  | none => exact h.bind h.parent fun _ => h.refuse _
  | some n =>
    by_cases hname : n.kind = "Identifier"
    · simp only [if_pos hname]
      exact h.bind (h.expect _) fun _ => h.pure _
    · simp only [if_neg hname]
      exact h.bind h.parent fun _ => h.refuse _

theorem expectText (kinds : List String) :
    R _ (MonadWalk.expectText kinds) (MonadWalk.expectText kinds) :=
  h.bind h.peek fun _ => h.bind (h.expect kinds) fun _ => h.pure _

variable [LawfulMonad m] [LawfulMonad m']

theorem map {α β : Type} (f : α → β) {x : m α} {x' : m' α} (hx : R _ x x') :
    R _ (f <$> x) (f <$> x') := by
  rw [map_eq_pure_bind, map_eq_pure_bind]
  exact h.bind hx fun _ => h.pure _

/-- **An operator is put together in step**, token by token: the recursion is on the tokens of the
options that are left. -/
theorem multiMatchFrom (options : List (List String)) (taken : Option String) :
    R _ (MonadWalk.multiMatchFrom options taken) (MonadWalk.multiMatchFrom options taken) := by
  rw [MonadWalk.multiMatchFrom, MonadWalk.multiMatchFrom]
  by_cases hwanted : options.filterMap List.head? = []
  · rw [dif_pos hwanted, dif_pos hwanted]
    exact h.pure taken
  · rw [dif_neg hwanted, dif_neg hwanted]
    have next (token : String) (taken : Option String) :=
      multiMatchFrom (MonadWalk.continuing token options) taken
    dsimp only
    -- the token is wanted or only tried, and both ways go on with the options that continue it
    split
    · refine h.bind (h.map some (h.expect _)) fun token? => ?_
      cases token? with
      | none => exact h.pure taken
      | some token => exact next token _
    · refine h.bind (h.tryMatch _) fun token? => ?_
      cases token? with
      | none => exact h.pure taken
      | some token => exact next token _
termination_by MonadWalk.tokenTotal options
decreasing_by exact MonadWalk.tokenTotal_continuing_lt token hwanted

end Simulation

end Rubify
