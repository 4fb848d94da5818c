import Rubify.Grammar.Reader
import Rubify.Proofs.Tree.Simulation
import Rubify.Proofs.Tree.Visits
import Mathlib.Data.List.Basic

/-!
# Readers and the comments they meet

A reader passes comments on its way and may take them. Fix a text `t`: `Place.tally` counts how
often it stands among the comments passed but not taken and those of the nodes still to come, and
`Keeps t given r held` says that a successful run of `r` only moves occurrences between that tally,
the comments `given` to the reader, and the comments `held` by its result. A reader that is given
and holds none is `Quiet`.

There is one rule per way to put readers together (`Keeps.bind`, `keeps_ite`, `keeps_inside`,
`keeps_many`, ...), so that a reader's own proof follows its definition line by line.
-/

namespace Rubify

variable {n : Node} {α β : Type}

/-- How often a text stands among the comments passed and those still to come. -/
def Place.tally (t : String) (p : Place n) : Nat :=
  p.comments.count t + (Node.commentTextsAll p.left).count t

namespace Reader

/-- The reader keeps the comments with the text `t`: those it was given and those of its place are
in what it reads or still in its place. -/
def Keeps (t : String) (given : List String) (r : Reader n α) (held : α → List String) : Prop :=
  ∀ (p : Place n) (a : α) (q : Place n), r p = .ok (a, q) →
    (held a).count t + q.tally t = given.count t + p.tally t

/-- A reader that leaves all comments where they are. -/
def Quiet (t : String) (r : Reader n α) : Prop :=
  Keeps t [] r fun _ => []

/-- Two steps succeed iff the first does and the second does from its place on. -/
theorem bind_eq_ok {x : Reader n α} {f : α → Reader n β} {p q : Place n} {b : β} :
    (x >>= f) p = .ok (b, q) ↔ ∃ a p₁, x p = .ok (a, p₁) ∧ f a p₁ = .ok (b, q) := by
  show (x p >>= fun r => f r.1 r.2) = .ok (b, q) ↔ _
  cases x p with
  | error e => simp [Bind.bind, Except.bind]
  | ok r =>
    obtain ⟨a, p₁⟩ := r
    simp [Bind.bind, Except.bind]

variable {t : String} {given : List String}

theorem keeps_pure {a : α} {held : α → List String} (h : (held a).count t = given.count t) :
    Keeps t given (pure a : Reader n α) held := by
  intro p b q hr
  cases hr
  rw [h]

/-- A step that is given all comments hands on what it holds. -/
theorem Keeps.andThen {x : Reader n α} {f : α → Reader n β} {held : α → List String}
    {held' : β → List String} (hx : Keeps t given x held) (hf : ∀ a, Keeps t (held a) (f a) held') :
    Keeps t given (x >>= f) held' := by
  intro p b q h
  obtain ⟨a, p₁, h₁, h₂⟩ := bind_eq_ok.mp h
  have e₁ := hx p a p₁ h₁
  have e₂ := hf a p₁ b q h₂
  omega

/-- Comments that a reader is not concerned with stay aside. -/
theorem Keeps.frame {x : Reader n α} {held : α → List String} (hx : Keeps t [] x held) :
    Keeps t given x fun a => given ++ held a := by
  intro p a q h
  have e := hx p a q h
  rw [List.count_append]
  rw [List.count_nil] at e
  omega

/-- A step that holds comments adds them to what is given to the rest. -/
theorem Keeps.bind {x : Reader n α} {f : α → Reader n β} {held : α → List String}
    {held' : β → List String} (hx : Keeps t [] x held)
    (hf : ∀ a, Keeps t (given ++ held a) (f a) held') : Keeps t given (x >>= f) held' :=
  hx.frame.andThen hf

/-- A step that leaves comments alone changes nothing. -/
theorem Quiet.bind {x : Reader n α} {f : α → Reader n β} {held' : β → List String}
    (hx : Quiet t x) (hf : ∀ a, Keeps t given (f a) held') : Keeps t given (x >>= f) held' := by
  refine Keeps.bind hx fun a => ?_
  rw [List.append_nil]
  exact hf a

theorem quiet_pure {a : α} : Quiet t (pure a : Reader n α) := keeps_pure rfl

theorem keeps_ite {c : Bool} {x y : Reader n α} {held : α → List String} (hx : Keeps t given x held)
    (hy : Keeps t given y held) : Keeps t given (if c = true then x else y) held := by
  split
  · exact hx
  · exact hy

/-- Two quiet ways to a value, and one way on from it. -/
theorem keeps_join {c : Bool} {x y : Reader n α} {f : α → Reader n β} {held : β → List String}
    (hx : Quiet t x) (hy : Quiet t y) (hf : ∀ a, Keeps t given (f a) held) :
    Keeps t given (if c = true then x >>= f else y >>= f) held :=
  keeps_ite (hx.bind hf) (hy.bind hf)

theorem keeps_throw {e : BuildError} {held : α → List String} :
    Keeps t given (throw e : Reader n α) held := by
  intro p a q h
  cases h

/-- What is read inside a child is kept if its reader keeps it. -/
theorem keeps_inside {kinds : List String} {body : (c : Node) → c ∈ n.children → Reader c α}
    {held : α → List String} (hb : ∀ c hc, Keeps t given (body c hc) held) :
    Keeps t given (inside kinds body) held := by
  intro p a q h
  unfold inside at h
  split at h
  · cases h
  · rename_i c rest hs
    dsimp only at h
    split at h
    · split at h
      · cases h
      · rename_i a' q' hbody
        split at h
        · cases h
        · rename_i texts hl
          cases h
          have e := hb _ _ _ _ _ hbody
          have hc : c.isComment = false := Node.isComment_of_skipComments hs
          have hleft := Node.commentTextsAll_skipComments p.left
          rw [hs, Node.commentTextsAll, Node.commentTexts_of_not hc] at hleft
          simp only [Place.tally, hleft, Node.commentTextsAll_of_leave hl, List.count_append] at e ⊢
          omega
    · cases h

theorem keeps_takeComments : Keeps t [] (takeComments : Reader n (List String)) id := by
  intro p texts q h
  cases h
  simp only [Place.tally, List.count_nil, id]
  omega

/-- Only the count of the text matters. -/
theorem Keeps.congr {r : Reader n α} {held held' : α → List String} (h : Keeps t given r held)
    (heq : ∀ a, (held' a).count t = (held a).count t) : Keeps t given r held' := by
  intro p a q hr
  rw [heq]
  exact h p a q hr

theorem keeps_map {f : α → β} {x : Reader n α} {held : α → List String} {held' : β → List String}
    (hx : Keeps t given x held) (hf : ∀ a, (held' (f a)).count t = (held a).count t) :
    Keeps t given (f <$> x) held' := by
  intro p b q h
  rw [map_eq_pure_bind] at h
  obtain ⟨a, p₁, h₁, h₂⟩ := bind_eq_ok.mp h
  have e := hx p a p₁ h₁
  cases h₂
  rw [hf]
  exact e

/-! ## Looking and taking -/

theorem quiet_peek : Quiet t (MonadWalk.peek? : Reader n (Option Node)) := by
  intro p a q h
  cases h
  rfl

theorem quiet_parent : Quiet t (MonadWalk.parent : Reader n String) := quiet_pure

theorem keeps_refuse {e : MatchError} {held : α → List String} :
    Keeps t given (MonadWalk.refuse e : Reader n α) held := keeps_throw

theorem quiet_expect {kinds : List String} : Quiet t (MonadWalk.expect kinds : Reader n String) :=
  keeps_inside fun _ _ => quiet_pure

/-- What looks and takes leaves comments alone. -/
theorem quiet_simulation : Simulation (Reader n) (Reader n) fun _ x _ => Quiet t x :=
  ⟨fun _ => quiet_pure, Quiet.bind, quiet_parent, quiet_peek, fun _ => quiet_expect,
    fun _ => keeps_refuse⟩

theorem quiet_peekKind : Quiet t (MonadWalk.peekKind? : Reader n (Option String)) :=
  quiet_simulation.peekKind

theorem quiet_nextIs {kinds : List String} : Quiet t (MonadWalk.nextIs kinds : Reader n Bool) :=
  quiet_simulation.nextIs kinds

theorem quiet_mismatch {kinds : List String} :
    Quiet t (MonadWalk.mismatch kinds : Reader n MatchError) :=
  quiet_simulation.mismatch kinds

theorem quiet_token {kind : String} : Quiet t (token kind : Reader n Unit) :=
  quiet_expect.bind fun _ => quiet_pure

theorem quiet_tryMatch {kinds : List String} :
    Quiet t (MonadWalk.tryMatch kinds : Reader n (Option String)) :=
  quiet_simulation.tryMatch kinds

theorem quiet_tryToken {kind : String} : Quiet t (MonadWalk.tryToken kind : Reader n Bool) :=
  quiet_simulation.tryToken kind

theorem quiet_name : Quiet t (MonadWalk.name : Reader n String) :=
  quiet_simulation.name

theorem quiet_expectText {kinds : List String} :
    Quiet t (MonadWalk.expectText kinds : Reader n String) :=
  quiet_simulation.expectText kinds

theorem quiet_multiMatchFrom (options : List (List String)) (taken : Option String) :
    Quiet t (MonadWalk.multiMatchFrom options taken : Reader n (Option String)) :=
  quiet_simulation.multiMatchFrom options taken

/-! ## Repeating -/

theorem keeps_repeating {step : Reader n (Option α)} {held : α → List String}
    (hs : Keeps t [] step fun o => o.elim [] held) (p : Place n) (items : List α) (q : Place n)
    (h : repeating step p = .ok (items, q)) :
    (items.flatMap held).count t + q.tally t = p.tally t := by
  rw [repeating] at h
  split at h
  · cases h
  · rename_i q' hstep
    cases h
    simpa using hs _ _ _ hstep
  · rename_i a q' hstep
    have e := hs _ _ _ hstep
    simp only [Option.elim_some, List.count_nil] at e
    split at h
    · rename_i hlt
      split at h
      · cases h
      · rename_i more r hmore
        cases h
        have e' := keeps_repeating hs q' more q hmore
        rw [List.flatMap_cons, List.count_append]
        omega
    · cases h
      rw [List.flatMap_cons, List.flatMap_nil, List.append_nil]
      omega
termination_by p.left.length

theorem keeps_gather {step : Reader n (Option α)} (held : α → List String)
    (hs : Keeps t [] step fun o => o.elim [] held) :
    Keeps t [] (gather step) fun items => items.flatMap held := by
  intro p items q h
  rw [List.count_nil, Nat.zero_add]
  exact keeps_repeating hs p items q h

theorem quiet_gather {step : Reader n (Option α)} (hs : Quiet t step) : Quiet t (gather step) := by
  refine (keeps_gather (fun _ => []) (hs.congr ?_)).congr ?_
  · intro o
    cases o <;> rfl
  · intro items
    rw [List.flatMap_eq_nil_iff.mpr fun _ _ => rfl]

section

variable {kind : String} {body : (c : Node) → c ∈ n.children → Reader c α}

theorem keeps_optional (held : α → List String) (hb : ∀ c hc, Keeps t [] (body c hc) held) :
    Keeps t [] (Reader.optional kind body) fun o => o.elim [] held := by
  refine quiet_nextIs.bind fun next => ?_
  cases next with
  | true => exact (keeps_inside hb).bind fun a => keeps_pure rfl
  | false => exact keeps_pure rfl

theorem keeps_many (held : α → List String) (hb : ∀ c hc, Keeps t [] (body c hc) held) :
    Keeps t [] (many kind body) fun items => items.flatMap held :=
  keeps_gather held (keeps_optional held hb)

theorem keeps_separated {separator : String} {item : Reader n α} (held : α → List String)
    (hi : Keeps t [] item held) :
    Keeps t [] (separated separator item) fun items => items.flatMap held := by
  refine hi.bind fun first => (keeps_gather held ?_).bind fun more => keeps_pure ?_
  · refine quiet_tryToken.bind fun found => ?_
    cases found with
    | true => exact hi.bind fun a => keeps_pure rfl
    | false => exact keeps_pure rfl
  · rfl

/-- Separated items are at least one. -/
theorem Quiet.separated {separator : String} {item : Reader n α} {held' : List α → List String}
    (hi : Quiet t item) (hcons : ∀ first more, (held' (first :: more)).count t = given.count t) :
    Keeps t given (separated separator item) held' := by
  refine hi.bind fun first => Quiet.bind (quiet_gather ?_) fun more => keeps_pure (hcons first more)
  refine quiet_tryToken.bind fun found => ?_
  cases found with
  | true => exact hi.bind fun a => quiet_pure
  | false => exact quiet_pure

theorem quiet_optional (hb : ∀ c hc, Quiet t (body c hc)) : Quiet t (Reader.optional kind body) :=
  (keeps_optional _ hb).congr fun o => by cases o <;> rfl

theorem quiet_many (hb : ∀ c hc, Quiet t (body c hc)) : Quiet t (many kind body) :=
  quiet_gather (quiet_optional hb)

theorem quiet_separated {separator : String} {item : Reader n α} (hi : Quiet t item) :
    Quiet t (separated separator item) := hi.separated fun _ _ => rfl

end

end Reader

end Rubify
