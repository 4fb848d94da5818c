import Rubify.Proofs.Tree.Log

/-!
# What a match leaves alone

A match is decided by the next node alone. If that has none of the expected kinds, nothing happens
at all: the operation fails or gives nothing, and the walk is the same (`Misses`). If it has one of
them, the walk ends behind that node whatever happens inside it.

The second part is a fact about bodies. `Balanced` are the computations that are made of operations
which leave what they enter: they can fail at any point, catch failures and go on, and nest to any
depth. Each keeps the nodes that are entered and moves only at the innermost one (`Keeps`,
`Balanced.keeps`), so the node that `expectWith` leaves in the end is the one it has entered.

Headline: **`matches_keep_frame`**.
-/

namespace Rubify

variable {S α β : Type}

theorem Node.skipComments_of_next? {left : List Node} {n : Node} (h : Node.next? left = some n) :
    ∃ texts rest, Node.skipComments left = (texts, n :: rest) := by
  rw [Node.next?] at h
  rcases hs : Node.skipComments left with ⟨texts, _ | ⟨m, rest⟩⟩ <;> rw [hs] at h <;> cases h
  exact ⟨texts, rest, rfl⟩

namespace Walk

/-- The cursors of the nodes around the innermost one entered, from the inside out. -/
def outer (w : Walk) : List Cursor :=
  (w.stack ++ [w.root]).tail

/-- The walk with another list left at the innermost node entered and other comments queued. -/
def moved (w : Walk) (left : List Node) (comments : List String) : Walk :=
  { w.withLeft left with comments }

/-- The walk inside one more node. -/
def push (w : Walk) (c : Cursor) : Walk :=
  { w with stack := c :: w.stack }

section

variable (w : Walk) (left left' : List Node) (comments comments' : List String)

theorem moved_self : w.moved w.top.left w.comments = w := by
  obtain ⟨root, stack, comments⟩ := w
  cases stack <;> rfl

theorem moved_moved : (w.moved left comments).moved left' comments' = w.moved left' comments' := by
  obtain ⟨root, stack, comments⟩ := w
  cases stack <;> rfl

theorem top_moved : (w.moved left comments).top = ⟨w.top.parent, left⟩ := by
  obtain ⟨root, stack, comments⟩ := w
  cases stack <;> rfl

theorem outer_moved : (w.moved left comments).outer = w.outer := by
  obtain ⟨root, stack, comments⟩ := w
  cases stack <;> rfl

theorem length_stack_moved : (w.moved left comments).stack.length = w.stack.length := by
  obtain ⟨root, stack, comments⟩ := w
  cases stack <;> rfl

end

/-- The walk has gone past one node and the comments in front of it, at the innermost node entered;
the nodes around that are where they were. -/
structure TookOne (w w' : Walk) : Prop where
  height : w'.stack.length = w.stack.length
  outer : w'.outer = w.outer
  past : ∃ (comments : List Node) (n : Node) (rest : List Node),
    w.top.left = comments ++ n :: rest ∧ (∀ c ∈ comments, c.isComment = true) ∧
      n.isComment = false ∧ w'.top = ⟨w.top.parent, rest⟩

/-- The comments that are skipped stand in front of the rest. -/
theorem exists_skipComments (left : List Node) : ∃ comments : List Node,
    left = comments ++ (Node.skipComments left).2 ∧ ∀ c ∈ comments, c.isComment = true := by
  induction left with
  | nil => exact ⟨[], rfl, List.forall_mem_nil _⟩
  | cons n rest ih =>
    rw [Node.skipComments]
    split
    · rename_i hn
      obtain ⟨comments, hrest, hall⟩ := ih
      exact ⟨n :: comments, congrArg (n :: ·) hrest, List.forall_mem_cons.mpr ⟨hn, hall⟩⟩
    · exact ⟨[], rfl, List.forall_mem_nil _⟩

theorem tookOne_moved {w : Walk} {texts : List String} {n : Node} {rest : List Node}
    (h : Node.skipComments w.top.left = (texts, n :: rest)) (queue : List String) :
    TookOne w (w.moved rest queue) where
  height := w.length_stack_moved rest queue
  outer := w.outer_moved rest queue
  past := by
    obtain ⟨comments, hleft, hall⟩ := exists_skipComments w.top.left
    rw [h] at hleft
    exact ⟨comments, n, rest, hleft, hall, Node.isComment_of_skipComments (congrArg Prod.snd h),
      w.top_moved rest queue⟩

end Walk

namespace WalkT

/-! ## Entering and leaving -/

section

variable {w : Walk} {s : S} {kinds : List String}

theorem get_run (w : Walk) (s : S) :
    (get : WalkT (StateM S) Walk).run.run w s = ((.ok w, w), s) :=
  rfl

theorem enter_of_not_mem (h : ∀ n, Node.next? w.top.left = some n → n.kind ∉ kinds) :
    (enter kinds : WalkT (StateM S) Unit).run.run w s =
      ((.error (Node.mismatch w.top.parent w.top.left kinds), w), s) := by
  rw [enter, run_bind, get_run]
  dsimp only
  rcases hs : Node.skipComments w.top.left with ⟨texts, _ | ⟨n, rest⟩⟩
  · rfl
  · have hn : Node.next? w.top.left = some n := by rw [Node.next?, hs]; rfl
    have hk : ¬ kinds.contains n.kind = true := fun hc => h n hn (List.contains_iff_mem.mp hc)
    dsimp only
    rw [if_neg hk]
    rfl

theorem enter_of_mem {texts : List String} {n : Node} {rest : List Node}
    (h : Node.skipComments w.top.left = (texts, n :: rest)) (hk : n.kind ∈ kinds) :
    (enter kinds : WalkT (StateM S) Unit).run.run w s =
      ((.ok (), (w.moved rest (w.comments ++ texts)).push ⟨n.kind, n.children⟩), s) := by
  rw [enter, run_bind, get_run]
  dsimp only
  rw [h]
  dsimp only
  rw [if_pos (List.contains_iff_mem.mpr hk), ← w.comments_withLeft rest]
  rfl

/-- Entering fails and changes nothing, or takes the next node. -/
theorem enter_cases (kinds : List String) (w : Walk) (s : S) :
    (enter kinds : WalkT (StateM S) Unit).run.run w s =
        ((.error (Node.mismatch w.top.parent w.top.left kinds), w), s) ∨
      ∃ texts n rest, Node.skipComments w.top.left = (texts, n :: rest) ∧ n.kind ∈ kinds := by
  rcases hs : Node.skipComments w.top.left with ⟨texts, _ | ⟨n, rest⟩⟩
  · refine Or.inl (enter_of_not_mem fun n hn => ?_)
    rw [Node.next?, hs] at hn
    cases hn
  · by_cases hk : n.kind ∈ kinds
    · exact Or.inr ⟨texts, n, rest, rfl, hk⟩
    · refine Or.inl (enter_of_not_mem fun m hm => ?_)
      rw [Node.next?, hs] at hm
      cases hm
      exact hk

theorem leave_push (w : Walk) (c : Cursor) (s : S) :
    (leave : WalkT (StateM S) Unit).run.run (w.push c) s =
      (((Node.leave c.parent c.left).map fun _ => (),
        { w with comments := w.comments ++ (Node.skipComments c.left).1 }), s) := by
  rw [leave, run_bind, get_run]
  dsimp only [Walk.push]
  rw [run_bind]
  cases Node.leave c.parent c.left <;> rfl

end

/-! ## Scopes -/

/-- Enters a node and leaves it, also if the body fails; gives how both ended. -/
def scope (kinds : List String) (body : WalkT (StateM S) α) :
    WalkT (StateM S) (Except MatchError α × Except MatchError Unit) := do
  enter kinds
  let result ← ExceptT.lift body.run
  let exit ← ExceptT.lift leave.run
  return (result, exit)

/-- What a scope does once it has entered: the body, then leaving. -/
theorem run_scope {kinds : List String} {body : WalkT (StateM S) α} {w w₁ w₂ w₃ : Walk}
    {s s₁ s₂ s₃ : S} {result : Except MatchError α} {exit : Except MatchError Unit}
    (henter : (enter kinds : WalkT (StateM S) Unit).run.run w s = ((.ok (), w₁), s₁))
    (hbody : body.run.run w₁ s₁ = ((result, w₂), s₂))
    (hleave : (leave : WalkT (StateM S) Unit).run.run w₂ s₂ = ((exit, w₃), s₃)) :
    (scope kinds body).run.run w s = ((.ok (result, exit), w₃), s₃) := by
  have hbody' : (ExceptT.lift body.run : WalkT (StateM S) _).run.run w₁ s₁ =
      ((.ok result, w₂), s₂) := yields_lift.mpr hbody
  have hleave' : (ExceptT.lift leave.run : WalkT (StateM S) _).run.run w₂ s₂ =
      ((.ok exit, w₃), s₃) := yields_lift.mpr hleave
  rw [scope, run_bind, henter]
  show (ExceptT.lift body.run >>= _ : WalkT (StateM S) _).run.run w₁ s₁ = _
  rw [run_bind, hbody']
  show (ExceptT.lift leave.run >>= _ : WalkT (StateM S) _).run.run w₂ s₂ = _
  rw [run_bind, hleave']
  rfl

/-- Succeeds if the body has, and leaving has; the error of the body comes first. -/
def settle : Except MatchError α × Except MatchError Unit → WalkT (StateM S) α
  | (.error e, _) => throw e
  | (.ok _, .error e) => throw e
  | (.ok a, .ok ()) => return a

theorem expectWith_eq_scope (kinds : List String) (body : WalkT (StateM S) α) :
    expectWith kinds body = scope kinds body >>= settle := by
  simp only [expectWith, scope, bind_assoc, pure_bind]
  refine congrArg _ (funext fun _ => congrArg _ (funext fun result => ?_))
  refine congrArg _ (funext fun exit => ?_)
  cases result with
  | error e => rfl
  | ok a => cases exit <;> rfl

theorem settle_walk (p : Except MatchError α × Except MatchError Unit) (w : Walk) (s : S) :
    ((settle p).run.run w s).1.2 = w := by
  obtain ⟨_ | a, _ | u⟩ := p <;> rfl

/-- What settles the result does not move. -/
theorem expectWith_walk (kinds : List String) (body : WalkT (StateM S) α) (w : Walk) (s : S) :
    ((expectWith kinds body).run.run w s).1.2 = ((scope kinds body).run.run w s).1.2 := by
  rw [expectWith_eq_scope, run_bind]
  rcases (scope kinds body).run.run w s with ⟨⟨_ | p, w₁⟩, s₁⟩
  · rfl
  · exact settle_walk p w₁ s₁

/-! ## Computations that keep their place -/

/-- The computation keeps the nodes that are entered and moves at the innermost one only, whether it
succeeds or fails. -/
def Keeps (x : WalkT (StateM S) α) : Prop :=
  ∀ w s, ∃ left comments, (x.run.run w s).1.2 = w.moved left comments

/-- A scope around a body that keeps its place ends behind the node it has entered. -/
theorem scope_walk {kinds : List String} {body : WalkT (StateM S) α} {w : Walk}
    {texts : List String} {n : Node} {rest : List Node} (hb : Keeps body)
    (h : Node.skipComments w.top.left = (texts, n :: rest)) (hk : n.kind ∈ kinds) (s : S) :
    ∃ queue, ((scope kinds body).run.run w s).1.2 = w.moved rest queue := by
  let inner := (w.moved rest (w.comments ++ texts)).push ⟨n.kind, n.children⟩
  obtain ⟨left, comments, hmoved⟩ := hb inner s
  rcases hbody : body.run.run inner s with ⟨⟨result, w₂⟩, s₂⟩
  -- the body still stands inside the node, so that is the node which is left
  have hw₂ : w₂ = (w.moved rest comments).push ⟨n.kind, left⟩ := by
    rw [hbody] at hmoved
    exact hmoved
  subst hw₂
  refine ⟨comments ++ (Node.skipComments left).1, ?_⟩
  rw [run_scope (enter_of_mem h hk) hbody (leave_push _ _ _)]
  rfl

namespace Keeps

/-- A computation that leaves the walk alone keeps its place. -/
theorem of_same {x : WalkT (StateM S) α} (h : ∀ w s, (x.run.run w s).1.2 = w) : Keeps x :=
  fun w s => ⟨w.top.left, w.comments, (h w s).trans w.moved_self.symm⟩

theorem pure (a : α) : Keeps (Pure.pure a : WalkT (StateM S) α) :=
  of_same fun _ _ => rfl

theorem bind {x : WalkT (StateM S) α} {f : α → WalkT (StateM S) β} (hx : Keeps x)
    (hf : ∀ a, Keeps (f a)) : Keeps (x >>= f) := by
  intro w s
  obtain ⟨left, comments, hmoved⟩ := hx w s
  rw [run_bind]
  rcases hrun : x.run.run w s with ⟨⟨_ | a, w₁⟩, s₁⟩ <;> rw [hrun] at hmoved
  · exact ⟨left, comments, hmoved⟩
  · obtain ⟨left', comments', hmoved'⟩ := hf a w₁ s₁
    refine ⟨left', comments', hmoved'.trans ?_⟩
    show w₁.moved left' comments' = _
    rw [show w₁ = w.moved left comments from hmoved, Walk.moved_moved]

theorem attempt {x : WalkT (StateM S) α} (hx : Keeps x) :
    Keeps (ExceptT.lift x.run : WalkT (StateM S) (Except MatchError α)) :=
  hx

theorem takeComments : Keeps (WalkT.takeComments : WalkT (StateM S) (List String)) := by
  intro w s
  exact ⟨w.top.left, [], congrArg (fun v : Walk => { v with comments := [] }) w.moved_self.symm⟩

theorem scope (kinds : List String) {x : WalkT (StateM S) α} (hx : Keeps x) :
    Keeps (WalkT.scope kinds x) := by
  intro w s
  rcases enter_cases kinds w s with he | ⟨texts, n, rest, hs, hk⟩
  · refine ⟨w.top.left, w.comments, ?_⟩
    rw [WalkT.scope, run_bind, he, w.moved_self]
  · obtain ⟨queue, hw⟩ := scope_walk hx hs hk s
    exact ⟨rest, queue, hw⟩

/-! ## Operations made of these -/

theorem expectWith (kinds : List String) {x : WalkT (StateM S) α} (hx : Keeps x) :
    Keeps (WalkT.expectWith kinds x) := by
  rw [expectWith_eq_scope]
  exact (hx.scope kinds).bind fun p => of_same (settle_walk p)

theorem parent : Keeps (MonadWalk.parent : WalkT (StateM S) String) :=
  of_same fun _ _ => rfl

theorem peek : Keeps (MonadWalk.peek? : WalkT (StateM S) (Option Node)) :=
  of_same fun _ _ => rfl

theorem expect (kinds : List String) :
    Keeps (MonadWalk.expect kinds : WalkT (StateM S) String) :=
  (of_same fun _ _ => rfl : Keeps (get : WalkT (StateM S) Walk)).bind fun _ =>
    (expectWith kinds (pure ())).bind fun _ => pure _

theorem refuse (e : MatchError) : Keeps (MonadWalk.refuse e : WalkT (StateM S) α) :=
  of_same fun _ _ => rfl

/-- The operations made of these keep their place, too. -/
theorem simulation : Simulation (WalkT (StateM S)) (WalkT (StateM S)) fun _ x _ => Keeps x :=
  ⟨pure, bind, parent, peek, expect, refuse⟩

theorem tryMatchWith (kinds : List String) {x : WalkT (StateM S) α} (hx : Keeps x) :
    Keeps (WalkT.tryMatchWith kinds x) := by
  refine (simulation.nextIs kinds).bind fun next => ?_
  cases next with
  | true => exact (hx.expectWith kinds).bind fun _ => pure _
  | false => exact pure _

theorem loopMatchUpTo (kind : String) {x : WalkT (StateM S) Unit} (hx : Keeps x) :
    ∀ bound, Keeps (WalkT.loopMatchUpTo kind x bound)
  | 0 => pure 0
  | bound + 1 => by
    refine (hx.tryMatchWith [kind]).bind fun matched => ?_
    cases matched with
    | none => exact pure 0
    | some u => exact (loopMatchUpTo kind hx bound).bind fun _ => pure _

theorem loopMatch (kind : String) {x : WalkT (StateM S) Unit} (hx : Keeps x) :
    Keeps (WalkT.loopMatch kind x) :=
  (of_same fun _ _ => rfl : Keeps (get : WalkT (StateM S) Walk)).bind fun _ =>
    loopMatchUpTo kind hx _

end Keeps

/-! ## Balanced computations -/

/-- Computations made of operations that leave the nodes they enter. They choose the next operation
by what the ones before gave, have a state of their own, and may fail, also between entering and
leaving a node, and go on after a failure. -/
inductive Balanced : {α : Type} → WalkT (StateM S) α → Prop
  | pure {α : Type} (a : α) : Balanced (Pure.pure a)
  | fail {α : Type} (e : MatchError) : Balanced (throw e : WalkT (StateM S) α)
  | bind {α β : Type} {x : WalkT (StateM S) α} {f : α → WalkT (StateM S) β} :
      Balanced x → (∀ a, Balanced (f a)) → Balanced (x >>= f)
  | attempt {α : Type} {x : WalkT (StateM S) α} : Balanced x →
      Balanced (ExceptT.lift x.run : WalkT (StateM S) (Except MatchError α))
  | own {α : Type} (f : StateM S α) : Balanced (ExceptT.lift (StateT.lift f))
  | parent : Balanced MonadWalk.parent
  | peek : Balanced MonadWalk.peek?
  | takeComments : Balanced WalkT.takeComments
  | scope {α : Type} (kinds : List String) {x : WalkT (StateM S) α} :
      Balanced x → Balanced (WalkT.scope kinds x)
  | expect (kinds : List String) : Balanced (MonadWalk.expect kinds)
  | expectWith {α : Type} (kinds : List String) {x : WalkT (StateM S) α} :
      Balanced x → Balanced (WalkT.expectWith kinds x)
  | tryMatch (kinds : List String) : Balanced (MonadWalk.tryMatch kinds)
  | tryMatchWith {α : Type} (kinds : List String) {x : WalkT (StateM S) α} :
      Balanced x → Balanced (WalkT.tryMatchWith kinds x)
  | loopMatch (kind : String) {x : WalkT (StateM S) Unit} :
      Balanced x → Balanced (WalkT.loopMatch kind x)
  | name : Balanced MonadWalk.name
  | expectText (kinds : List String) : Balanced (MonadWalk.expectText kinds)
  | multiMatch (options : List (List String)) : Balanced (MonadWalk.multiMatch options)

/-- **Balanced computations keep their place.** -/
theorem Balanced.keeps {x : WalkT (StateM S) α} (h : Balanced x) : Keeps x := by
  induction h with
  | pure a => exact .pure a
  | fail e => exact .of_same fun _ _ => rfl
  | bind _ _ hx hf => exact hx.bind hf
  | attempt _ hx => exact hx.attempt
  | own f => exact .of_same fun _ _ => rfl
  | parent => exact .parent
  | peek => exact .peek
  | takeComments => exact .takeComments
  | scope kinds _ hx => exact hx.scope kinds
  | expect kinds => exact .expect kinds
  | expectWith kinds _ hx => exact hx.expectWith kinds
  | tryMatch kinds => exact Keeps.simulation.tryMatch kinds
  | tryMatchWith kinds _ hx => exact hx.tryMatchWith kinds
  | loopMatch kind _ hx => exact hx.loopMatch kind
  | name => exact Keeps.simulation.name
  | expectText kinds => exact Keeps.simulation.expectText kinds
  | multiMatch options => exact Keeps.simulation.multiMatchFrom options none

/-! ## Lookahead that fails -/

/-- No operation that looks for one of the kinds finds it here: those that must find it fail, the
others give nothing, and none of them changes the walk or what the walker has. -/
structure Misses (kinds : List String) (w : Walk) (s : S) : Prop where
  tryMatch : (MonadWalk.tryMatch kinds : WalkT (StateM S) (Option String)).run.run w s =
    ((.ok none, w), s)
  tryMatchWith : ∀ {α : Type} (body : WalkT (StateM S) α),
    (WalkT.tryMatchWith kinds body).run.run w s = ((.ok none, w), s)
  loopMatch : ∀ kind ∈ kinds, ∀ body : WalkT (StateM S) Unit,
    (WalkT.loopMatch kind body).run.run w s = ((.ok 0, w), s)
  enter : (WalkT.enter kinds : WalkT (StateM S) Unit).run.run w s =
    ((.error (Node.mismatch w.top.parent w.top.left kinds), w), s)
  expect : (MonadWalk.expect kinds : WalkT (StateM S) String).run.run w s =
    ((.error (Node.mismatch w.top.parent w.top.left kinds), w), s)
  expectWith : ∀ {α : Type} (body : WalkT (StateM S) α),
    (WalkT.expectWith kinds body).run.run w s =
      ((.error (Node.mismatch w.top.parent w.top.left kinds), w), s)
  expectText : (MonadWalk.expectText kinds : WalkT (StateM S) String).run.run w s =
    ((.error (Node.mismatch w.top.parent w.top.left kinds), w), s)
  name : "Identifier" ∈ kinds → (MonadWalk.name : WalkT (StateM S) String).run.run w s =
    ((.error (.expectedName w.top.parent (Node.found w.top.left)), w), s)

section

variable {w : Walk} {s : S} {kinds : List String}

theorem nextIs_run (kinds : List String) (w : Walk) (s : S) :
    (MonadWalk.nextIs kinds : WalkT (StateM S) Bool).run.run w s =
      ((.ok ((Node.nextKind? w.top.left).any (kinds.contains ·)), w), s) :=
  rfl

theorem nextIs_of_not_mem (h : ∀ n, Node.next? w.top.left = some n → n.kind ∉ kinds) :
    (MonadWalk.nextIs kinds : WalkT (StateM S) Bool).run.run w s = ((.ok false, w), s) := by
  rw [nextIs_run, Node.nextKind?]
  cases hn : Node.next? w.top.left with
  | none => rfl
  | some n =>
    have hk : kinds.contains n.kind = false :=
      Bool.eq_false_iff.mpr fun hc => h n hn (List.contains_iff_mem.mp hc)
    rw [Option.map_some, Option.any_some, hk]

theorem expectWith_of_not_mem (h : ∀ n, Node.next? w.top.left = some n → n.kind ∉ kinds)
    (body : WalkT (StateM S) α) : (expectWith kinds body).run.run w s =
      ((.error (Node.mismatch w.top.parent w.top.left kinds), w), s) := by
  rw [expectWith, run_bind, enter_of_not_mem h]

theorem expect_of_not_mem (h : ∀ n, Node.next? w.top.left = some n → n.kind ∉ kinds) :
    (MonadWalk.expect kinds : WalkT (StateM S) String).run.run w s =
      ((.error (Node.mismatch w.top.parent w.top.left kinds), w), s) := by
  show (get >>= fun w : Walk => expectWith kinds (return) >>= fun _ =>
    return Node.found w.top.left : WalkT (StateM S) String).run.run w s = _
  rw [run_bind]
  show (expectWith kinds (return) >>= fun _ =>
    return Node.found w.top.left : WalkT (StateM S) String).run.run w s = _
  rw [run_bind, expectWith_of_not_mem h]

theorem tryMatchWith_of_not_mem (h : ∀ n, Node.next? w.top.left = some n → n.kind ∉ kinds)
    (body : WalkT (StateM S) α) :
    (tryMatchWith kinds body).run.run w s = ((.ok none, w), s) := by
  rw [tryMatchWith, run_bind, nextIs_of_not_mem h]
  rfl

theorem loopMatch_of_not_mem {kind : String}
    (h : ∀ n, Node.next? w.top.left = some n → n.kind ∉ [kind]) (body : WalkT (StateM S) Unit) :
    (loopMatch kind body).run.run w s = ((.ok 0, w), s) := by
  rw [loopMatch, run_bind]
  show (loopMatchUpTo kind body w.size).run.run w s = _
  cases w.size with
  | zero => rfl
  | succ bound =>
    rw [loopMatchUpTo, run_bind, tryMatchWith_of_not_mem h]
    rfl

theorem name_of_not_mem (h : ∀ n, Node.next? w.top.left = some n → n.kind ≠ "Identifier") :
    (MonadWalk.name : WalkT (StateM S) String).run.run w s =
      ((.error (.expectedName w.top.parent (Node.found w.top.left)), w), s) := by
  have hpeek : (MonadWalk.peek? : WalkT (StateM S) (Option Node)).run.run w s =
      ((.ok (Node.next? w.top.left), w), s) := rfl
  rw [MonadWalk.name, run_bind, hpeek, Node.found, Node.nextKind?]
  dsimp only
  cases hn : Node.next? w.top.left with
  | none => rfl
  | some n =>
    dsimp only
    rw [if_neg (h n hn)]
    rfl

/-- **Lookahead that fails changes nothing.** -/
theorem misses_of_not_mem (h : ∀ n, Node.next? w.top.left = some n → n.kind ∉ kinds) :
    Misses kinds w s where
  tryMatch := by
    rw [MonadWalk.tryMatch, run_bind, nextIs_of_not_mem h]
    rfl
  tryMatchWith := tryMatchWith_of_not_mem h
  loopMatch kind hk := loopMatch_of_not_mem fun n hn hm => h n hn (List.mem_singleton.mp hm ▸ hk)
  enter := enter_of_not_mem h
  expect := expect_of_not_mem h
  expectWith := expectWith_of_not_mem h
  expectText := by
    rw [MonadWalk.expectText, run_bind]
    show (MonadWalk.expect kinds >>= fun _ =>
      return ((Node.next? w.top.left).map Node.text).getD "" :
        WalkT (StateM S) String).run.run w s = _
    rw [run_bind, expect_of_not_mem h]
  name hk := name_of_not_mem fun n hn he => h n hn (he ▸ hk)

end

/-! ## Both cases -/

/-- **Matches keep their frame.** If the next node has none of the kinds, no operation that looks
for them changes anything. If it has one of them, walking its children with a balanced body ends
behind that node, with the nodes around it as they were, whether the body succeeds, fails or leaves
children over. -/
theorem matches_keep_frame (w : Walk) (s : S) (kinds : List String) :
    ((∀ n, Node.next? w.top.left = some n → n.kind ∉ kinds) → Misses kinds w s) ∧
    ((∃ n, Node.next? w.top.left = some n ∧ n.kind ∈ kinds) →
      ∀ {α : Type} (body : WalkT (StateM S) α), Balanced body →
        w.TookOne ((expectWith kinds body).run.run w s).1.2) := by
  refine ⟨misses_of_not_mem, ?_⟩
  rintro ⟨n, hn, hk⟩ α body hb
  obtain ⟨texts, rest, hs⟩ := Node.skipComments_of_next? hn
  obtain ⟨queue, hw⟩ := scope_walk hb.keeps hs hk s
  rw [expectWith_walk, hw]
  exact Walk.tookOne_moved hs queue

/-- A walk in front of a node with a comment before it and a sibling behind it. -/
def flanked : Walk :=
  ⟨⟨Node.aboveRoot, []⟩,
    [⟨"A", [⟨"line_comment", some "// a", []⟩,
      ⟨"B", none, [⟨"x", none, []⟩, ⟨"C", none, [⟨"y", none, []⟩]⟩]⟩, ⟨"D", none, []⟩]⟩], ["// 0"]⟩

/-- Takes a token, then the token inside a node. -/
def tokenInside (token : String) : WalkT (StateM Unit) String :=
  MonadWalk.expect ["x"] >>= fun _ => expectWith ["C"] (MonadWalk.expect [token])

theorem balanced_tokenInside (token : String) : Balanced (tokenInside token) :=
  .bind (.expect _) fun _ => .expectWith _ (.expect _)

/-- Takes a token and leaves what is behind it. -/
def tokenOnly : WalkT (StateM Unit) String :=
  MonadWalk.expect ["x"]

theorem matches_keep_frame_flanked :
    Misses ["D", "Identifier"] flanked () ∧
    -- the body succeeds
    ((expectWith ["B"] (tokenInside "y")).run.run flanked ()).1.1 = .ok "y" ∧
    flanked.TookOne ((expectWith ["B"] (tokenInside "y")).run.run flanked ()).1.2 ∧
    -- it fails inside an inner node
    ((expectWith ["B"] (tokenInside "z")).run.run flanked ()).1.1 =
      .error (.mismatch "C" "y" ["z"]) ∧
    flanked.TookOne ((expectWith ["B"] (tokenInside "z")).run.run flanked ()).1.2 ∧
    -- it leaves a child over
    ((expectWith ["B"] tokenOnly).run.run flanked ()).1.1 = .error (.unconsumed "B" ["C"]) ∧
    flanked.TookOne ((expectWith ["B"] tokenOnly).run.run flanked ()).1.2 := by
  have hnext : ∃ n, Node.next? flanked.top.left = some n ∧ n.kind ∈ ["B"] :=
    ⟨_, rfl, List.mem_singleton.mpr rfl⟩
  have hmiss : ∀ n, Node.next? flanked.top.left = some n → n.kind ∉ ["D", "Identifier"] := by
    rintro n ⟨⟩
    decide
  exact ⟨(matches_keep_frame flanked () _).1 hmiss,
    rfl, (matches_keep_frame flanked () _).2 hnext _ (balanced_tokenInside "y"),
    rfl, (matches_keep_frame flanked () _).2 hnext _ (balanced_tokenInside "z"),
    rfl, (matches_keep_frame flanked () _).2 hnext _ (.expect _)⟩

end WalkT

end Rubify
