import Rubify.Grammar.Expression
import Rubify.Proofs.Comments.Reader

/-!
# Readers that do not look at comments

`inside` written as two steps: reading the children of the next node (`entering`), and leaving them
(`leaving`). With it, `Blind r` says that what a reader comes to does not depend on the comments
passed before it. The readers of tokens are blind.
-/

namespace Rubify

variable {n : Node} {α β : Type}

/-! ## Leaving a sibling list -/

/-- A sibling list can be left iff it holds comments only. -/
theorem Node.leave_eq_ok_iff {parent : String} {left : List Node} :
    (∃ texts, Node.leave parent left = .ok texts) ↔ ∀ c ∈ left, c.isComment = true := by
  have hskip : (Node.skipComments left).2 = [] ↔ ∀ c ∈ left, c.isComment = true := by
    induction left with
    | nil => simp [Node.skipComments]
    | cons c rest ih =>
      rw [Node.skipComments, List.forall_mem_cons]
      by_cases hc : c.isComment = true
      · rw [if_pos hc, ih]
        simp [hc]
      · rw [if_neg hc]
        simp [hc]
  rw [← hskip]
  constructor
  · rintro ⟨texts, h⟩
    rw [Node.skipComments_of_leave h]
  · intro h
    refine ⟨(Node.skipComments left).1, ?_⟩
    rw [Node.leave, show Node.skipComments left = ((Node.skipComments left).1, []) from
      Prod.ext rfl h]

/-- Reading starts with all children left. -/
theorem Node.children_suffix (c : Node) : c.children <:+ c.children :=
  List.suffix_refl _

namespace Reader

section

variable {kinds : List String} {body : (c : Node) → c ∈ n.children → Reader c α} {p q : Place n}

/-- The place in front of the children of a node that is read next. -/
def entering (c : Node) (p : Place n) : Place c :=
  ⟨c.children, c.children_suffix, p.comments ++ (Node.skipComments p.left).1⟩

/-- How reading a child ends when its children have been read. -/
def leaving (c : Node) (rest : List Node) (hrest : rest <:+ n.children) :
    Except BuildError (α × Place c) → Except BuildError (α × Place n)
  | .error e => .error e
  | .ok (a, q) =>
    match Node.leave c.kind q.left with
    | .error e => .error (.shape e)
    | .ok texts => .ok (a, ⟨rest, hrest, q.comments ++ texts⟩)

/-- A child of one of the kinds is read by the reader of its children. -/
theorem inside_of_next (body : (c : Node) → c ∈ n.children → Reader c α) {c : Node}
    {rest : List Node} (hs : (Node.skipComments p.left).2 = c :: rest)
    (hk : kinds.contains c.kind = true) :
    ∃ (hc : c ∈ n.children) (hrest : rest <:+ n.children),
      inside kinds body p = leaving c rest hrest (body c hc (entering c p)) := by
  have hsuffix : c :: rest <:+ n.children := (hs ▸ Node.skipComments_suffix p.left).trans p.within
  refine ⟨hsuffix.subset List.mem_cons_self, (List.suffix_cons c rest).trans hsuffix, ?_⟩
  unfold inside
  split
  · rename_i h
    rw [hs] at h
    cases h
  · rename_i c' rest' h
    rw [hs] at h
    cases h
    dsimp only
    rw [if_pos hk]
    rfl

/-- A child of none of the kinds is refused. -/
theorem inside_of_not (h : ∀ c ∈ Node.next? p.left, kinds.contains c.kind = false) :
    inside kinds body p = .error (.shape (Node.mismatch n.kind p.left kinds)) := by
  unfold inside
  split
  · rfl
  · rename_i c rest hs
    have hk : kinds.contains c.kind = false := h c (by simp [Node.next?, hs])
    dsimp only
    rw [hk]
    rfl

/-- A successful run has read the next child. -/
theorem exists_of_inside {a : α} (h : inside kinds body p = .ok (a, q)) :
    ∃ (c : Node) (rest : List Node) (hc : c ∈ n.children) (q₁ : Place c),
      (Node.skipComments p.left).2 = c :: rest ∧ kinds.contains c.kind = true ∧
      body c hc (entering c p) = .ok (a, q₁) ∧ (∀ d ∈ q₁.left, d.isComment = true) ∧
      q.left = rest := by
  cases hs : (Node.skipComments p.left).2 with
  | nil =>
    rw [inside_of_not (by simp [Node.next?, hs])] at h
    cases h
  | cons c rest =>
    by_cases hk : kinds.contains c.kind = true
    · obtain ⟨hc, hrest, heq⟩ := inside_of_next body hs hk
      rw [heq] at h
      cases hb : body c hc (entering c p) with
      | error e => rw [hb] at h; cases h
      | ok r =>
        obtain ⟨a', q₁⟩ := r
        rw [hb, leaving] at h
        cases hl : Node.leave c.kind q₁.left with
        | error e => rw [hl] at h; cases h
        | ok texts =>
          rw [hl] at h
          cases h
          exact ⟨c, rest, hc, q₁, rfl, hk, hb, Node.leave_eq_ok_iff.mp ⟨texts, hl⟩, rfl⟩
    · rw [inside_of_not] at h
      · cases h
      · intro d hd
        rw [Node.next?, hs] at hd
        cases hd
        exact Bool.eq_false_iff.mpr hk

end

/-! ## Readers that do not look at comments -/

section

variable {x : Reader n α} {f : α → Reader n β} {p : Place n}

theorem bind_of_error {e : BuildError} (h : x p = .error e) : (x >>= f) p = .error e := by
  show (x p >>= fun r => f r.1 r.2) = _
  rw [h]
  rfl

theorem bind_of_ok {a : α} {q : Place n} (h : x p = .ok (a, q)) : (x >>= f) p = f a q := by
  show (x p >>= fun r => f r.1 r.2) = _
  rw [h]
  rfl

end

/-- The comments passed so far do not matter: runs from the same children come to the same. -/
def Blind (r : Reader n α) : Prop :=
  ∀ p q : Place n, p.left = q.left →
    (∃ e, r p = .error e ∧ r q = .error e) ∨
      ∃ a p' q', r p = .ok (a, p') ∧ r q = .ok (a, q') ∧ p'.left = q'.left

theorem blind_pure {a : α} : Blind (pure a : Reader n α) :=
  fun p q h => Or.inr ⟨a, p, q, rfl, rfl, h⟩

theorem Blind.bind {x : Reader n α} {f : α → Reader n β} (hx : Blind x) (hf : ∀ a, Blind (f a)) :
    Blind (x >>= f) := by
  intro p q h
  rcases hx p q h with ⟨e, hp, hq⟩ | ⟨a, p', q', hp, hq, h'⟩
  · exact Or.inl ⟨e, bind_of_error hp, bind_of_error hq⟩
  · rw [bind_of_ok hp, bind_of_ok hq]
    exact hf a p' q' h'

theorem blind_inside {kinds : List String} {body : (c : Node) → c ∈ n.children → Reader c α}
    (hb : ∀ c hc, Blind (body c hc)) : Blind (inside kinds body) := by
  intro p q h
  by_cases hnext : ∀ c ∈ Node.next? p.left, kinds.contains c.kind = false
  · refine Or.inl ⟨_, inside_of_not hnext, ?_⟩
    rw [inside_of_not (h ▸ hnext), h]
  · simp only [Node.next?, Option.mem_def, List.head?_eq_some_iff, not_forall] at hnext
    obtain ⟨c, ⟨rest, hs⟩, hk⟩ := hnext
    rw [Bool.not_eq_false] at hk
    obtain ⟨hc, hrest, hp⟩ := inside_of_next body hs hk
    obtain ⟨_, _, hq⟩ := inside_of_next body (h ▸ hs) hk
    rw [hp, hq]
    rcases hb c hc (entering c p) (entering c q) rfl with
      ⟨e, hbp, hbq⟩ | ⟨a, p', q', hbp, hbq, h'⟩
    · rw [hbp, hbq]
      exact Or.inl ⟨e, rfl, rfl⟩
    · rw [hbp, hbq, leaving, leaving, h']
      cases Node.leave c.kind q'.left with
      | error e => exact Or.inl ⟨_, rfl, rfl⟩
      | ok texts => exact Or.inr ⟨a, _, _, rfl, rfl, rfl⟩

theorem blind_peek : Blind (MonadWalk.peek? : Reader n (Option Node)) := by
  intro p q h
  refine Or.inr ⟨Node.next? p.left, p, q, rfl, ?_, h⟩
  rw [h]
  rfl

theorem blind_expect {kinds : List String} : Blind (MonadWalk.expect kinds : Reader n String) :=
  blind_inside fun _ _ => blind_pure

/-- What looks and takes does not see the comments in front. -/
theorem blind_simulation : Simulation (Reader n) (Reader n) fun _ x _ => Blind x :=
  ⟨fun _ => blind_pure, Blind.bind, blind_pure, blind_peek, fun _ => blind_expect,
    fun e _ _ _ => Or.inl ⟨.shape e, rfl, rfl⟩⟩

theorem blind_repeating {step : Reader n (Option α)} (hs : Blind step) (p q : Place n)
    (hpq : p.left = q.left) :
    (∃ e, repeating step p = .error e ∧ repeating step q = .error e) ∨
      ∃ items p' q', repeating step p = .ok (items, p') ∧ repeating step q = .ok (items, q') ∧
        p'.left = q'.left := by
  rw [repeating.eq_def step p, repeating.eq_def step q]
  rcases hs p q hpq with ⟨e, hp, hq⟩ | ⟨o, p₁, q₁, hp, hq, h₁⟩
  · rw [hp, hq]
    exact Or.inl ⟨e, rfl, rfl⟩
  rw [hp, hq]
  cases o with
  | none => exact Or.inr ⟨[], p₁, q₁, rfl, rfl, h₁⟩
  | some a =>
    dsimp only
    rw [← h₁, ← hpq]
    split
    · rename_i hlt
      rcases blind_repeating hs p₁ q₁ h₁ with ⟨e, hp', hq'⟩ | ⟨items, p₂, q₂, hp', hq', h₂⟩
      · rw [hp', hq']
        exact Or.inl ⟨e, rfl, rfl⟩
      · rw [hp', hq']
        exact Or.inr ⟨a :: items, p₂, q₂, rfl, rfl, h₂⟩
    · exact Or.inr ⟨[a], p₁, q₁, rfl, rfl, h₁⟩
termination_by p.left.length

theorem blind_gather {step : Reader n (Option α)} (hs : Blind step) : Blind (gather step) :=
  blind_repeating hs

end Reader

namespace Grammar

open MonadWalk Reader Syntax

theorem blind_tokensIn (n : Node) : Blind (tokensIn n) := by
  rw [tokensIn]
  refine Blind.bind (blind_gather (blind_peek.bind fun next => ?_)) fun _ => blind_pure
  have child (kinds : List String) : Blind (inside kinds fun c _ => tokensIn c : Reader n _) := by
    refine blind_inside fun c hc => ?_
    have := Node.count_lt_of_mem hc
    exact blind_tokensIn c
  cases next with
  | none => exact blind_pure
  | some next =>
    dsimp only
    split
    · exact (child _).bind fun _ => blind_pure
    · split
      · exact (child _).bind fun _ => blind_pure
      · split
        · exact Blind.bind (blind_simulation.multiMatchFrom _ _) fun _ => blind_pure
        · exact Blind.bind (blind_simulation.expectText _) fun _ => blind_pure
termination_by n.count

end Grammar

end Rubify
