import Rubify.Proofs.Tree.Simulation
import Rubify.Proofs.Tree.Visits

/-!
# The log of a walk

Comments are queued at two moments, when the node behind them is taken and when the node around them
is left, while the cursors further out already stand behind their own. A log that notes what each
operation goes past shows that this keeps the order of the document.

* `Watch` is a walk that is watched: every operation does what it does and also notes the nodes it
  takes, the comments it queues and the comments it hands out. `Watch.expectWith` and the operations
  made of it run the walk's own `expectWith`, with notes at both ends of the body.
* `Follows x y` says that the watched `x` does what `y` does, and that what is seen keeps accounting
  for the walk (`Accounts`): log and what is in front of the walk make up the whole tree, and the
  comments in the log are those handed out and those queued.
* `Script` is any sequence of operations. **`Script.follows`** is the induction over it, one lemma
  per operation.

Headline: **`watch_log_eq_visits`**.
-/

namespace Rubify

variable {S α β : Type}

/-! ## Successful runs -/

namespace WalkT

/-- The computation succeeds with `a` and leaves the walk `w'` and the state `s'` behind. -/
def Yields (x : WalkT (StateM S) α) (w : Walk) (s : S) (a : α) (w' : Walk) (s' : S) : Prop :=
  x.run.run w s = ((.ok a, w'), s')

section

variable {w w' : Walk} {s s' : S}

theorem yields_pure {a b : α} : Yields (pure b) w s a w' s' ↔ b = a ∧ w = w' ∧ s = s' := by
  constructor
  · intro h
    cases h
    exact ⟨rfl, rfl, rfl⟩
  · rintro ⟨rfl, rfl, rfl⟩
    rfl

/-- One computation after another: the second starts where the first succeeds. -/
theorem run_bind (x : WalkT (StateM S) α) (f : α → WalkT (StateM S) β) (w : Walk) (s : S) :
    (x >>= f).run.run w s = match x.run.run w s with
      | ((.ok a, w₁), s₁) => (f a).run.run w₁ s₁
      | ((.error e, w₁), s₁) => ((.error e, w₁), s₁) := by
  show (ExceptT.bindCont f (x.run.run w s).1.1).run (x.run.run w s).1.2 (x.run.run w s).2 = _
  rcases x.run.run w s with ⟨⟨_ | a, w₁⟩, s₁⟩ <;> rfl

/-- One computation after another succeeds iff the first does and the second does from there on. -/
theorem yields_bind {x : WalkT (StateM S) α} {f : α → WalkT (StateM S) β} {b : β} :
    Yields (x >>= f) w s b w' s' ↔
      ∃ a w₁ s₁, Yields x w s a w₁ s₁ ∧ Yields (f a) w₁ s₁ b w' s' := by
  unfold Yields
  rw [run_bind]
  constructor
  · intro h
    rcases hx : x.run.run w s with ⟨⟨_ | a, w₁⟩, s₁⟩ <;> rw [hx] at h
    · cases h
    · exact ⟨a, w₁, s₁, rfl, h⟩
  · rintro ⟨a, w₁, s₁, hx, hf⟩
    rw [hx]
    exact hf

theorem yields_get {a : Walk} : Yields get w s a w' s' ↔ w = a ∧ w = w' ∧ s = s' := by
  constructor
  · intro h
    cases h
    exact ⟨rfl, rfl, rfl⟩
  · rintro ⟨rfl, rfl, rfl⟩
    rfl

theorem yields_set {v : Walk} {a : PUnit} :
    Yields (set v) w s a w' s' ↔ v = w' ∧ s = s' := by
  constructor
  · intro h
    cases h
    exact ⟨rfl, rfl⟩
  · rintro ⟨rfl, rfl⟩
    rfl

theorem not_yields_throw {e : MatchError} {a : α} : ¬ Yields (throw e) w s a w' s' := by
  intro h
  cases h

/-- Running a computation to see whether it fails. -/
theorem yields_lift {x : WalkT (StateM S) α} {a : Except MatchError α} :
    Yields (ExceptT.lift x.run) w s a w' s' ↔ x.run.run w s = ((a, w'), s') := by
  have hlift : (ExceptT.lift x.run : WalkT (StateM S) (Except MatchError α)).run.run w s =
      ((.ok (x.run.run w s).1.1, (x.run.run w s).1.2), (x.run.run w s).2) := rfl
  unfold Yields
  rw [hlift]
  constructor
  · intro h
    rcases hx : x.run.run w s with ⟨⟨e, w₁⟩, s₁⟩
    rw [hx] at h
    cases h
    rfl
  · intro h
    rw [h]

end

/-! ## What the operations meet -/

/-- The walk goes past the entries, and the comments among them are queued. -/
structure Passes (w : Walk) (entries : List Entry) (w' : Walk) : Prop where
  todo : entries ++ w'.todo = w.todo
  comments : w'.comments = w.comments ++ entries.filterMap Entry.comment?

theorem filterMap_comment_map (texts : List String) :
    (texts.map Entry.comment).filterMap Entry.comment? = texts := by
  rw [List.filterMap_map]
  exact List.filterMap_some

section

variable {w w' : Walk} {s s' : S}

/-- Entering a node goes past the comments in front of it and the node. -/
theorem Yields.enter_passes {kinds : List String} {u : Unit}
    (h : Yields (enter kinds) w s u w' s') : Passes w w.taking w' := by
  obtain ⟨v, w₁, s₁, hg, h⟩ := yields_bind.mp h
  obtain ⟨rfl, rfl, rfl⟩ := yields_get.mp hg
  rcases hs : Node.skipComments w.top.left with ⟨texts, _ | ⟨n, rest⟩⟩ <;> rw [hs] at h
  · exact absurd h not_yields_throw
  · simp only at h
    split at h
    · obtain ⟨rfl, rfl⟩ := yields_set.mp h
      have hn : n.isComment = false := Node.isComment_of_skipComments (congrArg Prod.snd hs)
      have hfront : Node.visitsAll w.top.left = texts.map Entry.comment ++
          (Entry.node n :: (Node.visitsAll n.children ++ Node.visitsAll rest)) := by
        rw [Node.visitsAll_skipComments, hs, Node.visitsAll, Node.visits_of_not hn]
        rfl
      have htaking : w.taking = texts.map Entry.comment ++ [Entry.node n] := by
        rw [Walk.taking, hs]
      constructor
      · have hback := w.todo_withLeft rest
        rw [w.todo_eq, hfront, htaking]
        simp only [Walk.todo, List.flatMap_cons, List.append_assoc] at hback ⊢
        rw [hback]
        simp
      · rw [htaking, List.filterMap_append, filterMap_comment_map]
        show (w.withLeft rest).comments ++ texts = w.comments ++ (texts ++ [])
        rw [w.comments_withLeft, List.append_nil]
    · exact absurd h not_yields_throw

/-- Leaving a node goes past the comments left in it. -/
theorem Yields.leave_passes {u : Unit} (h : Yields leave w s u w' s') :
    Passes w w.leaving w' := by
  obtain ⟨v, w₁, s₁, hg, h⟩ := yields_bind.mp h
  obtain ⟨rfl, rfl, rfl⟩ := yields_get.mp hg
  obtain ⟨root, stack, comments⟩ := w
  cases stack with
  | nil =>
    obtain ⟨-, rfl, rfl⟩ := yields_pure.mp h
    exact ⟨rfl, (List.append_nil _).symm⟩
  | cons c below =>
    obtain ⟨_, w₁, s₁, hset, h⟩ := yields_bind.mp h
    obtain ⟨rfl, rfl⟩ := yields_set.mp hset
    rcases hl : Node.leave c.parent c.left with e | texts <;> rw [hl] at h
    · exact absurd h not_yields_throw
    · obtain ⟨-, rfl, rfl⟩ := yields_pure.mp h
      have hs := Node.skipComments_of_leave hl
      constructor
      · simp [Walk.leaving, Walk.todo, hs, Node.visitsAll_of_leave hl]
      · show _ = comments ++ ((Node.skipComments c.left).1.map Entry.comment).filterMap _
        rw [filterMap_comment_map]

/-- Walking the children of a node enters it, walks, and leaves it. -/
theorem Yields.of_expectWith {kinds : List String} {body : WalkT (StateM S) α} {a : α}
    (h : Yields (expectWith kinds body) w s a w' s') :
    ∃ w₁ s₁ w₂ s₂, Yields (enter kinds) w s () w₁ s₁ ∧ Yields body w₁ s₁ a w₂ s₂ ∧
      Yields leave w₂ s₂ () w' s' := by
  obtain ⟨u, w₁, s₁, he, h⟩ := yields_bind.mp h
  obtain ⟨result, w₂, s₂, hb, h⟩ := yields_bind.mp h
  obtain ⟨exit, w₃, s₃, hl, h⟩ := yields_bind.mp h
  rw [yields_lift] at hb hl
  cases result with
  | error e => exact absurd h not_yields_throw
  | ok b =>
    cases exit with
    | error e => exact absurd h not_yields_throw
    | ok u =>
      obtain ⟨rfl, rfl, rfl⟩ := yields_pure.mp h
      exact ⟨w₁, s₁, w₂, s₂, he, hb, hl⟩

end

/-! ## Laws -/

/-- Looking at the walk and not using it is nothing. -/
theorem get_bind (x : WalkT (StateM S) α) : (get >>= fun _ => x) = x := rfl

/-- What is done to the result of a body can be done inside it. -/
theorem map_expectWith (f : α → β) (kinds : List String) (body : WalkT (StateM S) α) :
    f <$> expectWith kinds body = expectWith kinds (f <$> body) := by
  unfold expectWith
  simp only [map_bind]
  have hlift : (ExceptT.lift (f <$> body).run : WalkT (StateM S) (Except MatchError β)) =
      Except.map f <$> ExceptT.lift body.run := by
    rw [ExceptT.run_map]
    rfl
  rw [hlift]
  refine congrArg _ (funext fun _ => ?_)
  rw [bind_map_left]
  refine congrArg _ (funext fun result => congrArg _ (funext fun exit => ?_))
  cases result with
  | error e => rfl
  | ok a => cases exit <;> rfl

end WalkT

/-! ## Watching a walk -/

/-- What has been seen of a walk. -/
structure Seen where
  /-- The nodes taken and the comments queued, as it happened. -/
  log : List Entry
  /-- The comments that were handed out. -/
  taken : List String

/-- Nothing has been seen. -/
def Seen.nothing : Seen := ⟨[], []⟩

/-- Adds to the log. -/
def Seen.note (seen : Seen) (entries : List Entry) : Seen :=
  { seen with log := seen.log ++ entries }

/-- Adds to the comments handed out. -/
def Seen.take (seen : Seen) (texts : List String) : Seen :=
  { seen with taken := seen.taken ++ texts }

/-- Computations on a walk that is watched. -/
abbrev Watch (S : Type) := StateT Seen (WalkT (StateM S))

namespace Watch

/-- A computation that neither takes nodes nor touches comments. -/
def quiet (x : WalkT (StateM S) α) : Watch S α := fun seen => do
  let a ← x
  return (a, seen)

def takeComments : Watch S (List String) := fun seen => do
  let texts ← WalkT.takeComments
  return (texts, seen.take texts)

def enter (kinds : List String) : Watch S Unit := fun seen => do
  let w ← get
  WalkT.enter kinds
  return ((), seen.note w.taking)

def leave : Watch S Unit := fun seen => do
  let w ← get
  WalkT.leave
  return ((), seen.note w.leaving)

def expectWith (kinds : List String) (body : Watch S α) : Watch S α := fun seen => do
  let w ← get
  WalkT.expectWith kinds do
    let (a, seen) ← body (seen.note w.taking)
    let w ← get
    return (a, seen.note w.leaving)

def expect (kinds : List String) : Watch S String := do
  let w ← quiet get
  expectWith kinds (return)
  return Node.found w.top.left

instance : MonadWalk (Watch S) where
  parent := quiet MonadWalk.parent
  peek? := quiet MonadWalk.peek?
  expect := expect
  refuse e := quiet (MonadWalk.refuse e)

def tryMatchWith (kinds : List String) (body : Watch S α) : Watch S (Option α) := do
  if ← MonadWalk.nextIs kinds then
    let a ← expectWith kinds body
    return some a
  else
    return none

def loopMatchUpTo (kind : String) (body : Watch S Unit) : Nat → Watch S Nat
  | 0 => return 0
  | bound + 1 => do
    match ← tryMatchWith [kind] body with
    | none => return 0
    | some () => return (← loopMatchUpTo kind body bound) + 1

def loopMatch (kind : String) (body : Watch S Unit) : Watch S Nat := do
  loopMatchUpTo kind body (← quiet get).size

end Watch

/-- What has been seen accounts for the walk: with what is in front of the walk the log makes up the
whole, and the comments in the log were handed out or are queued. -/
structure Accounts (whole : List Entry) (seen : Seen) (w : Walk) : Prop where
  log : seen.log ++ w.todo = whole
  comments : seen.log.filterMap Entry.comment? = seen.taken ++ w.comments

theorem Accounts.note {whole entries : List Entry} {seen : Seen} {w w' : Walk}
    (h : Accounts whole seen w) (hp : WalkT.Passes w entries w') :
    Accounts whole (seen.note entries) w' := by
  constructor
  · rw [Seen.note, List.append_assoc, hp.todo, h.log]
  · rw [Seen.note, List.filterMap_append, h.comments, hp.comments, List.append_assoc]

/-- `x` does what `y` does, and what it sees accounts for the walk. -/
structure Follows (x : Watch S α) (y : WalkT (StateM S) α) : Prop where
  same : ∀ seen, Prod.fst <$> x seen = y
  accounts : ∀ {whole seen w s a seen' w' s'}, Accounts whole seen w →
    WalkT.Yields (x seen) w s (a, seen') w' s' → Accounts whole seen' w'

namespace Follows

theorem pure (a : α) : Follows (Pure.pure a : Watch S α) (Pure.pure a) := by
  refine ⟨fun seen => rfl, fun ha h => ?_⟩
  obtain ⟨he, rfl, rfl⟩ := WalkT.yields_pure.mp h
  cases he
  exact ha

theorem bind {x : Watch S α} {y : WalkT (StateM S) α} {f : α → Watch S β}
    {g : α → WalkT (StateM S) β} (hx : Follows x y) (hf : ∀ a, Follows (f a) (g a)) :
    Follows (x >>= f) (y >>= g) := by
  constructor
  · intro seen
    show Prod.fst <$> (x seen >>= fun p => f p.1 p.2) = y >>= g
    rw [← hx.same seen, map_bind, bind_map_left]
    exact congrArg _ (funext fun p => (hf p.1).same p.2)
  · intro whole seen w s b seen' w' s' ha h
    obtain ⟨⟨a, seen₁⟩, w₁, s₁, h₁, h₂⟩ := WalkT.yields_bind.mp h
    exact (hf a).accounts (hx.accounts ha h₁) h₂

/-- A computation that leaves the walk alone is followed by itself. -/
theorem quiet {y : WalkT (StateM S) α}
    (hy : ∀ {w s a w' s'}, WalkT.Yields y w s a w' s' → w' = w) : Follows (Watch.quiet y) y := by
  constructor
  · intro seen
    show Prod.fst <$> (y >>= fun a => Pure.pure (a, seen)) = y
    rw [map_bind]
    simp only [map_pure]
    exact bind_pure y
  · intro whole seen w s a seen' w' s' ha h
    obtain ⟨b, w₁, s₁, h₁, h₂⟩ := WalkT.yields_bind.mp h
    obtain ⟨he, rfl, rfl⟩ := WalkT.yields_pure.mp h₂
    cases he
    rw [hy h₁]
    exact ha

theorem takeComments : Follows (Watch.takeComments (S := S)) WalkT.takeComments := by
  constructor
  · intro seen
    rfl
  · intro whole seen w s texts seen' w' s' ha h
    obtain ⟨texts', w₁, s₁, h₁, h₂⟩ := WalkT.yields_bind.mp h
    obtain ⟨he, rfl, rfl⟩ := WalkT.yields_pure.mp h₂
    cases he
    obtain ⟨v, w₂, s₂, hg, h₁⟩ := WalkT.yields_bind.mp h₁
    obtain ⟨rfl, rfl, rfl⟩ := WalkT.yields_get.mp hg
    obtain ⟨_, w₃, s₃, hset, h₁⟩ := WalkT.yields_bind.mp h₁
    obtain ⟨rfl, rfl⟩ := WalkT.yields_set.mp hset
    obtain ⟨rfl, rfl, rfl⟩ := WalkT.yields_pure.mp h₁
    refine ⟨ha.log, ?_⟩
    show seen.log.filterMap Entry.comment? = (seen.taken ++ w.comments) ++ []
    rw [ha.comments, List.append_nil]

theorem enter (kinds : List String) : Follows (Watch.enter (S := S) kinds) (WalkT.enter kinds) := by
  constructor
  · intro seen
    show Prod.fst <$> (get >>= fun w : Walk => WalkT.enter kinds >>= fun _ =>
      Pure.pure ((), seen.note w.taking)) = _
    simp only [map_bind, map_pure]
    exact (WalkT.get_bind _).trans (bind_pure _)
  · intro whole seen w s u seen' w' s' ha h
    obtain ⟨v, w₁, s₁, hg, h⟩ := WalkT.yields_bind.mp h
    obtain ⟨rfl, rfl, rfl⟩ := WalkT.yields_get.mp hg
    obtain ⟨_, w₂, s₂, he, h⟩ := WalkT.yields_bind.mp h
    obtain ⟨heq, rfl, rfl⟩ := WalkT.yields_pure.mp h
    cases heq
    exact ha.note he.enter_passes

theorem leave : Follows (Watch.leave (S := S)) WalkT.leave := by
  constructor
  · intro seen
    show Prod.fst <$> (get >>= fun w : Walk => WalkT.leave >>= fun _ =>
      Pure.pure ((), seen.note w.leaving)) = _
    simp only [map_bind, map_pure]
    exact (WalkT.get_bind _).trans (bind_pure _)
  · intro whole seen w s u seen' w' s' ha h
    obtain ⟨v, w₁, s₁, hg, h⟩ := WalkT.yields_bind.mp h
    obtain ⟨rfl, rfl, rfl⟩ := WalkT.yields_get.mp hg
    obtain ⟨_, w₂, s₂, hl, h⟩ := WalkT.yields_bind.mp h
    obtain ⟨heq, rfl, rfl⟩ := WalkT.yields_pure.mp h
    cases heq
    exact ha.note hl.leave_passes

theorem expectWith (kinds : List String) {x : Watch S α} {y : WalkT (StateM S) α}
    (h : Follows x y) : Follows (Watch.expectWith kinds x) (WalkT.expectWith kinds y) := by
  constructor
  · intro seen
    show Prod.fst <$> (get >>= fun w => WalkT.expectWith kinds (x (seen.note w.taking) >>= fun p =>
      get >>= fun w => Pure.pure (p.1, p.2.note w.leaving))) = _
    have hbody : ∀ w : Walk, Prod.fst <$> (x (seen.note w.taking) >>= fun p =>
        get >>= fun w => Pure.pure (p.1, p.2.note w.leaving)) = y := by
      intro w
      rw [← h.same (seen.note w.taking), map_bind, map_eq_pure_bind]
      rfl
    simp only [map_bind, WalkT.map_expectWith, hbody]
    exact WalkT.get_bind _
  · intro whole seen w s a seen' w' s' ha hy
    obtain ⟨v, w₁, s₁, hg, hy⟩ := WalkT.yields_bind.mp hy
    obtain ⟨rfl, rfl, rfl⟩ := WalkT.yields_get.mp hg
    obtain ⟨w₁, s₁, w₂, s₂, he, hb, hl⟩ := hy.of_expectWith
    obtain ⟨⟨b, seen₁⟩, w₃, s₃, hx, hb⟩ := WalkT.yields_bind.mp hb
    obtain ⟨v, w₄, s₄, hg, hb⟩ := WalkT.yields_bind.mp hb
    obtain ⟨rfl, rfl, rfl⟩ := WalkT.yields_get.mp hg
    obtain ⟨heq, rfl, rfl⟩ := WalkT.yields_pure.mp hb
    cases heq
    exact (h.accounts (ha.note he.enter_passes) hx).note hl.leave_passes

/-! ## Operations made of these -/

theorem look : Follows (Watch.quiet get : Watch S Walk) get :=
  quiet fun h => (WalkT.yields_get.mp h).2.1.symm

theorem parent : Follows (MonadWalk.parent : Watch S String) MonadWalk.parent := by
  refine quiet fun h => ?_
  obtain ⟨v, w₁, s₁, hg, h⟩ := WalkT.yields_bind.mp h
  obtain ⟨rfl, rfl, rfl⟩ := WalkT.yields_get.mp hg
  exact (WalkT.yields_pure.mp h).2.1.symm

theorem peek : Follows (MonadWalk.peek? : Watch S (Option Node)) MonadWalk.peek? := by
  refine quiet fun h => ?_
  obtain ⟨v, w₁, s₁, hg, h⟩ := WalkT.yields_bind.mp h
  obtain ⟨rfl, rfl, rfl⟩ := WalkT.yields_get.mp hg
  exact (WalkT.yields_pure.mp h).2.1.symm

theorem refuse (e : MatchError) : Follows (MonadWalk.refuse e : Watch S α) (MonadWalk.refuse e) :=
  quiet fun h => absurd h WalkT.not_yields_throw

theorem expect (kinds : List String) :
    Follows (MonadWalk.expect kinds : Watch S String) (MonadWalk.expect kinds) :=
  look.bind fun _ => (expectWith kinds (pure ())).bind fun _ => pure _

/-- A watched walk goes in step with the walk. -/
theorem simulation : Simulation (Watch S) (WalkT (StateM S)) fun _ => Follows :=
  ⟨pure, bind, parent, peek, expect, refuse⟩

theorem tryMatchWith (kinds : List String) {x : Watch S α} {y : WalkT (StateM S) α}
    (h : Follows x y) : Follows (Watch.tryMatchWith kinds x) (WalkT.tryMatchWith kinds y) := by
  refine (simulation.nextIs kinds).bind fun next => ?_
  cases next with
  | true => exact (expectWith kinds h).bind fun _ => pure _
  | false => exact pure _

theorem loopMatchUpTo (kind : String) {x : Watch S Unit} {y : WalkT (StateM S) Unit}
    (h : Follows x y) :
    ∀ bound, Follows (Watch.loopMatchUpTo kind x bound) (WalkT.loopMatchUpTo kind y bound)
  | 0 => pure 0
  | bound + 1 => by
    refine (tryMatchWith [kind] h).bind fun matched => ?_
    cases matched with
    | none => exact pure 0
    | some u => exact (loopMatchUpTo kind h bound).bind fun _ => pure _

theorem loopMatch (kind : String) {x : Watch S Unit} {y : WalkT (StateM S) Unit}
    (h : Follows x y) : Follows (Watch.loopMatch kind x) (WalkT.loopMatch kind y) :=
  look.bind fun _ => loopMatchUpTo kind h _

end Follows

/-! ## Every sequence of operations -/

/-- A sequence of operations on a walk, each chosen by what the ones before gave. The walker has a
state `S` of its own. -/
inductive Script (S : Type) : Type → Type 1
  | done {α : Type} (a : α) : Script S α
  | next {α β : Type} (first : Script S α) (rest : α → Script S β) : Script S β
  | own {α : Type} (f : S → α × S) : Script S α
  | parent : Script S String
  | peek : Script S (Option Node)
  | takeComments : Script S (List String)
  | enter (kinds : List String) : Script S Unit
  | leave : Script S Unit
  | expect (kinds : List String) : Script S String
  | expectWith {α : Type} (kinds : List String) (body : Script S α) : Script S α
  | tryMatch (kinds : List String) : Script S (Option String)
  | tryMatchWith {α : Type} (kinds : List String) (body : Script S α) : Script S (Option α)
  | loopMatch (kind : String) (body : Script S Unit) : Script S Nat
  | name : Script S String
  | expectText (kinds : List String) : Script S String
  | multiMatch (options : List (List String)) : Script S (Option String)

namespace Script

/-- Runs the operations. -/
def run : {α : Type} → Script S α → WalkT (StateM S) α
  | _, .done a => return a
  | _, .next first rest => first.run >>= fun a => (rest a).run
  | _, .own f => fun w s => ((.ok (f s).1, w), (f s).2)
  | _, .parent => MonadWalk.parent
  | _, .peek => MonadWalk.peek?
  | _, .takeComments => WalkT.takeComments
  | _, .enter kinds => WalkT.enter kinds
  | _, .leave => WalkT.leave
  | _, .expect kinds => WalkT.expect kinds
  | _, .expectWith kinds body => WalkT.expectWith kinds body.run
  | _, .tryMatch kinds => MonadWalk.tryMatch kinds
  | _, .tryMatchWith kinds body => WalkT.tryMatchWith kinds body.run
  | _, .loopMatch kind body => WalkT.loopMatch kind body.run
  | _, .name => MonadWalk.name
  | _, .expectText kinds => MonadWalk.expectText kinds
  | _, .multiMatch options => MonadWalk.multiMatch options

/-- Runs the operations and keeps a log. -/
def watch : {α : Type} → Script S α → Watch S α
  | _, .done a => return a
  | _, .next first rest => first.watch >>= fun a => (rest a).watch
  | _, .own f => Watch.quiet (Script.own f).run
  | _, .parent => MonadWalk.parent
  | _, .peek => MonadWalk.peek?
  | _, .takeComments => Watch.takeComments
  | _, .enter kinds => Watch.enter kinds
  | _, .leave => Watch.leave
  | _, .expect kinds => Watch.expect kinds
  | _, .expectWith kinds body => Watch.expectWith kinds body.watch
  | _, .tryMatch kinds => MonadWalk.tryMatch kinds
  | _, .tryMatchWith kinds body => Watch.tryMatchWith kinds body.watch
  | _, .loopMatch kind body => Watch.loopMatch kind body.watch
  | _, .name => MonadWalk.name
  | _, .expectText kinds => MonadWalk.expectText kinds
  | _, .multiMatch options => MonadWalk.multiMatch options

/-- **Watching changes nothing and loses nothing.** -/
theorem follows (script : Script S α) : Follows script.watch script.run := by
  induction script with
  | done a => exact .pure a
  | next first rest hfirst hrest => exact hfirst.bind hrest
  | own f =>
    refine .quiet fun h => ?_
    cases h
    rfl
  | parent => exact .parent
  | peek => exact .peek
  | takeComments => exact .takeComments
  | enter kinds => exact .enter kinds
  | leave => exact .leave
  | expect kinds => exact .expect kinds
  | expectWith kinds body h => exact .expectWith kinds h
  | tryMatch kinds => exact Follows.simulation.tryMatch kinds
  | tryMatchWith kinds body h => exact .tryMatchWith kinds h
  | loopMatch kind body h => exact .loopMatch kind h
  | name => exact Follows.simulation.name
  | expectText kinds => exact Follows.simulation.expectText kinds
  | multiMatch options => exact Follows.simulation.multiMatchFrom options none

end Script

/-! ## The whole walk -/

theorem Script.watch_of_run {script : Script S α} {w w' : Walk} {s s' : S} {a : α}
    (h : WalkT.Yields script.run w s a w' s') (seen : Seen) :
    ∃ seen', WalkT.Yields (script.watch seen) w s (a, seen') w' s' := by
  rw [← script.follows.same seen, map_eq_pure_bind] at h
  obtain ⟨⟨b, seen'⟩, w₁, s₁, hw, hp⟩ := WalkT.yields_bind.mp h
  obtain ⟨rfl, rfl, rfl⟩ := WalkT.yields_pure.mp hp
  exact ⟨seen', hw⟩

/-- **A walk that ends well visits the whole tree once, in document order, and loses no comment.**
Any operations that succeed from the start of the tree and leave every node they entered can be
watched without changing what they do; if the walk can then be ended, the log is the tree in
document order, and the comments handed out with those given at the end are its comments. -/
theorem watch_log_eq_visits (script : Script S α) (tree : Node) {w : Walk} {s s' : S} {a : α}
    {rest : List String} (h : WalkT.Yields script.run (Walk.start tree) s a w s')
    (hb : w.stack = []) (hf : w.finish = .ok rest) :
    ∃ seen, WalkT.Yields (script.watch .nothing) (Walk.start tree) s (a, seen) w s' ∧
      seen.log ++ w.finishing = tree.visits ∧ seen.taken ++ rest = tree.commentTexts := by
  obtain ⟨seen, hw⟩ := Script.watch_of_run h .nothing
  have hstart : Accounts tree.visits .nothing (Walk.start tree) := ⟨Walk.todo_start tree, rfl⟩
  have hacc : Accounts tree.visits seen w := script.follows.accounts hstart hw
  obtain ⟨texts, hl, rfl⟩ : ∃ texts, Node.leave w.root.parent w.root.left = .ok texts ∧
      w.comments ++ texts = rest := by
    rw [Walk.finish] at hf
    cases hl : Node.leave w.root.parent w.root.left with
    | error e => rw [hl] at hf; cases hf
    | ok texts =>
      rw [hl] at hf
      cases hf
      exact ⟨texts, rfl, rfl⟩
  have hfin : w.finishing = texts.map Entry.comment := by
    rw [Walk.finishing, Node.skipComments_of_leave hl]
  have hlog : seen.log ++ w.finishing = tree.visits := by
    rw [← hacc.log, Walk.todo, hb, Node.visitsAll_of_leave hl, hfin]
    rfl
  refine ⟨seen, hw, hlog, ?_⟩
  rw [← Node.filterMap_visits, ← hlog, List.filterMap_append, hacc.comments, hfin,
    WalkT.filterMap_comment_map, List.append_assoc]

/-- Two nodes with comments in front of, between and behind them. -/
def annotated : Node :=
  ⟨"A", none, [⟨"line_comment", some "// a", []⟩, ⟨"B", none, []⟩,
    ⟨"line_comment", some "// b", []⟩, ⟨"B", none, []⟩, ⟨"line_comment", some "// c", []⟩]⟩

/-- Counts the nodes, then takes the comments passed so far. -/
def countNodes : Script Nat (List String) :=
  .next (.enter ["A"]) fun _ => .next (.loopMatch "B" (.own fun k => ((), k + 1))) fun _ =>
    .next .takeComments fun texts => .next .leave fun _ => .done texts

theorem watch_log_eq_visits_annotated : ∃ seen w,
    WalkT.Yields (countNodes.watch .nothing) (Walk.start annotated) 0 (["// a", "// b"], seen) w 2 ∧
    seen.log ++ w.finishing = annotated.visits ∧
    seen.taken ++ ["// c"] = ["// a", "// b", "// c"] := by
  obtain ⟨w, h, hb, hf⟩ : ∃ w, WalkT.Yields countNodes.run (Walk.start annotated) 0
      ["// a", "// b"] w 2 ∧ w.stack = [] ∧ w.finish = .ok ["// c"] := ⟨_, rfl, rfl, rfl⟩
  obtain ⟨seen, hw, hl, ht⟩ := watch_log_eq_visits countNodes annotated h hb hf
  exact ⟨seen, w, hw, hl, ht⟩

end Rubify
