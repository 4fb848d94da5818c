import Rubify.Proofs.Grammar.Spelling
import Mathlib.Data.List.Forall2

/-!
# Trees that differ in their expressions

`Alike` trees have the same shape, but where one has an expression the other may have any other
expression. The grammar looks at the kinds of nodes only, so it reads alike trees alike until it
comes to an expression, and an expression is read on its own. `Follows R r r'` says this of two
readers: where `r'` succeeds, `r` does so on alike children, with a result that `R` relates to that
of `r'`, and all the expressions that it has passed can be read (`Node.Reads`). Or `r` fails with
the error of the first expression that cannot be read (`Blames`).

There is one rule per way to put readers together. Most results do not matter to what is read next
(`Loosely`); those that do are the same on both sides (`Agree`).
-/

namespace Rubify

variable {n n' : Node} {α β γ δ : Type}

/-! ## Expressions of a tree -/

namespace Node

/-- Trees of the same shape, where expressions may differ. -/
inductive Alike : Node → Node → Prop
  | expression {c c' : Node} : c.kind = "expression" → c'.kind = "expression" → Alike c c'
  | node {c c' : Node} : c.kind = c'.kind → List.Forall₂ Alike c.children c'.children → Alike c c'

mutual

/-- The expressions of the tree in document order, those inside others and in comments left out. -/
def expressions : Node → List Node
  | ⟨kind, payload, children⟩ =>
    if isComment ⟨kind, payload, children⟩ then []
    else if kind = "expression" then [⟨kind, payload, children⟩]
    else expressionsAll children

/-- The expressions of several trees. -/
def expressionsAll : List Node → List Node
  | [] => []
  | n :: rest => n.expressions ++ expressionsAll rest

end

/-- The tokens of the node make an expression. -/
def Reads (x : Node) : Prop :=
  ∃ tokens e, x.Spells tokens ∧ Syntax.Expr.ofTokens tokens = .ok e

end Node

/-- The error of tokens that hold an increment. -/
def BuildError.stepInside (op : String) (tokens : List String) : BuildError :=
  .unsupported ("`" ++ op ++ "` inside the expression `" ++ " ".intercalate tokens ++ "`")

namespace Node

/-- The error is that of reading `x`: it names an increment inside `x`, or `x` has no tokens. -/
def FailsWith (x : Node) (e : BuildError) : Prop :=
  (∀ tokens, ¬ x.Spells tokens) ∨
    ∃ tokens op, x.Spells tokens ∧ Syntax.Expr.ofTokens tokens = .error op ∧
      e = .stepInside op tokens

variable {c c' x : Node} {l l' : List Node}

theorem Alike.kind_eq (h : Alike c c') : c.kind = c'.kind := by
  cases h with
  | expression hc hc' => exact hc.trans hc'.symm
  | node hk => exact hk

theorem Alike.isComment_eq (h : Alike c c') : c.isComment = c'.isComment := by
  rw [isComment, isComment, h.kind_eq]

theorem Alike.children (h : Alike c c') (hk : c.kind ≠ "expression") :
    List.Forall₂ Alike c.children c'.children := by
  cases h with
  | expression hc => exact absurd hc hk
  | node _ hl => exact hl

theorem Alike.refl (c : Node) : Alike c c :=
  .node rfl (List.forall₂_same.mpr fun d hd =>
    have := Node.count_lt_of_mem hd
    Alike.refl d)
termination_by c.count

theorem alike_skipComments (h : List.Forall₂ Alike l l') :
    List.Forall₂ Alike (skipComments l).2 (skipComments l').2 := by
  induction h with
  | nil => exact .nil
  | @cons c c' l l' hc hl ih =>
    rw [skipComments, skipComments, hc.isComment_eq]
    split
    · exact ih
    · exact .cons hc hl

theorem alike_comments (h : List.Forall₂ Alike l l') (hl' : ∀ c ∈ l', c.isComment = true) :
    ∀ c ∈ l, c.isComment = true := by
  induction h with
  | nil => exact hl'
  | cons hc _ ih =>
    rw [List.forall_mem_cons] at hl' ⊢
    exact ⟨hc.isComment_eq ▸ hl'.1, ih hl'.2⟩

theorem expressions_of_comment (h : c.isComment = true) : c.expressions = [] := by
  cases c
  rw [expressions, if_pos h]

theorem expressions_of_expression (h : c.kind = "expression") : c.expressions = [c] := by
  have hnot : ¬ c.isComment = true := by simp [isComment, h]
  cases c
  rw [expressions, if_neg hnot, if_pos h]

/-- Below a node that is no expression, its children are searched. -/
theorem expressions_of_not (h : c.isComment = false) (hk : c.kind ≠ "expression") :
    c.expressions = expressionsAll c.children := by
  cases c
  rw [expressions, if_neg (Bool.eq_false_iff.mp h), if_neg hk]

theorem expressionsAll_singleton (c : Node) : expressionsAll [c] = c.expressions :=
  List.append_nil _

theorem expressionsAll_comments (h : ∀ c ∈ l, c.isComment = true) : expressionsAll l = [] := by
  induction l with
  | nil => rfl
  | cons c l ih =>
    rw [List.forall_mem_cons] at h
    rw [expressionsAll, expressions_of_comment h.1, ih h.2]
    rfl

theorem expressionsAll_skipComments (l : List Node) :
    expressionsAll (skipComments l).2 = expressionsAll l := by
  induction l with
  | nil => rfl
  | cons c l ih =>
    rw [skipComments]
    by_cases hc : c.isComment = true
    · rw [if_pos hc, expressionsAll, expressions_of_comment hc]
      exact ih
    · rw [if_neg hc]

end Node

/-! ## Readers on alike children -/

namespace Reader

open Node (Alike)

/-- The expressions of `l` are some that can be read, and those of `l'` behind them. -/
def Covers (l l' : List Node) : Prop :=
  ∃ read, Node.expressionsAll l = read ++ Node.expressionsAll l' ∧ ∀ x ∈ read, Node.Reads x

theorem Covers.refl (l : List Node) : Covers l l :=
  ⟨[], rfl, fun _ h => absurd h List.not_mem_nil⟩

theorem Covers.trans {l l' l'' : List Node} (h : Covers l l') (h' : Covers l' l'') :
    Covers l l'' := by
  obtain ⟨read, hl, hread⟩ := h
  obtain ⟨read', hl', hread'⟩ := h'
  refine ⟨read ++ read', ?_, List.forall_mem_append.mpr ⟨hread, hread'⟩⟩
  rw [hl, hl', List.append_assoc]

/-- The error is that of the first expression of `l` that cannot be read. -/
def Blames (l : List Node) (e : BuildError) : Prop :=
  ∃ read x more, Node.expressionsAll l = read ++ x :: more ∧ (∀ y ∈ read, Node.Reads y) ∧
    Node.FailsWith x e

theorem Blames.first {l more : List Node} {x : Node} {e : BuildError}
    (h : Node.expressionsAll l = x :: more) (he : x.FailsWith e) : Blames l e :=
  ⟨[], x, more, h, fun _ h => absurd h List.not_mem_nil, he⟩

/-- What has been read stands in front. -/
theorem Covers.blames {l l' : List Node} {e : BuildError} (h : Covers l l') (he : Blames l' e) :
    Blames l e := by
  obtain ⟨read, hl, hread⟩ := h
  obtain ⟨read', x, more, hl', hread', hx⟩ := he
  refine ⟨read ++ read', x, more, ?_, List.forall_mem_append.mpr ⟨hread, hread'⟩, hx⟩
  rw [hl, hl', List.append_assoc]

/-- A run fails with the error of the first expression that cannot be read. -/
def Fails (r : Reader n α) (p : Place n) : Prop :=
  ∃ e, r p = .error e ∧ Blames p.left e

/-- A run succeeds with a result and a place that go with those of another run, and has passed only
expressions that can be read. -/
def Succeeds (R : α → β → Prop) (r : Reader n α) (p : Place n) (b : β) (q' : Place n') : Prop :=
  ∃ a q, r p = .ok (a, q) ∧ R a b ∧ List.Forall₂ Alike q.left q'.left ∧ Covers p.left q.left

/-- Where `r'` succeeds, `r` does on alike children, or fails because of an expression. -/
def Follows (R : α → β → Prop) (r : Reader n α) (r' : Reader n' β) : Prop :=
  ∀ (p : Place n) (p' : Place n'), List.Forall₂ Alike p.left p'.left → ∀ b q', r' p' = .ok (b, q') →
    Succeeds R r p b q' ∨ Fails r p

/-- The results do not matter. -/
abbrev Loosely (r : Reader n α) (r' : Reader n' β) : Prop :=
  Follows (fun _ _ => True) r r'

/-- The results are the same. -/
abbrev Agree (r : Reader n α) (r' : Reader n' α) : Prop :=
  Follows (· = ·) r r'

/-- Both or none of two results are there. -/
def Both (o : Option α) (o' : Option β) : Prop :=
  o.isSome = o'.isSome

section

variable {R : α → β → Prop} {S : γ → δ → Prop} {r : Reader n α} {r' : Reader n' β}

theorem follows_pure {a : α} {b : β} (h : R a b) :
    Follows R (pure a : Reader n α) (pure b : Reader n' β) := by
  intro p p' hp b' q' hr'
  cases hr'
  exact Or.inl ⟨a, p, rfl, h, hp, .refl p.left⟩

theorem loosely_pure {a : α} {b : β} : Loosely (pure a : Reader n α) (pure b : Reader n' β) :=
  follows_pure trivial

theorem Follows.bind {f : α → Reader n γ} {f' : β → Reader n' δ} (hx : Follows R r r')
    (hf : ∀ a b, R a b → Follows S (f a) (f' b)) : Follows S (r >>= f) (r' >>= f') := by
  intro p p' hp d q' h'
  obtain ⟨b, p₁', hr', hf'⟩ := bind_eq_ok.mp h'
  rcases hx p p' hp b p₁' hr' with ⟨a, p₁, hr, hab, hp₁, hcov⟩ | ⟨e, hr, he⟩
  · rw [Succeeds, Fails, bind_of_ok hr]
    rcases hf a b hab p₁ p₁' hp₁ d q' hf' with ⟨c, q, hq, hcd, hleft, hcov'⟩ | ⟨e, hq, he⟩
    · exact Or.inl ⟨c, q, hq, hcd, hleft, hcov.trans hcov'⟩
    · exact Or.inr ⟨e, hq, hcov.blames he⟩
  · exact Or.inr ⟨e, bind_of_error hr, he⟩

/-- Whatever is read first, the rest follows. -/
theorem Follows.andThen {f : α → Reader n γ} {f' : β → Reader n' δ} (hx : Loosely r r')
    (hf : ∀ a b, Follows S (f a) (f' b)) : Follows S (r >>= f) (r' >>= f') :=
  hx.bind fun a b _ => hf a b

/-- The same is read first, and the rest follows. -/
theorem Follows.cases {r : Reader n α} {r' : Reader n' α} {f : α → Reader n γ}
    {f' : α → Reader n' δ} (hx : Agree r r') (hf : ∀ a, Follows S (f a) (f' a)) :
    Follows S (r >>= f) (r' >>= f') :=
  hx.bind fun a _ hab => hab ▸ hf a

theorem Follows.mono {R' : α → β → Prop} (h : Follows R r r') (hR : ∀ a b, R a b → R' a b) :
    Follows R' r r' := by
  intro p p' hp b q' hr'
  rcases h p p' hp b q' hr' with ⟨a, q, hr, hab, hq⟩ | hfails
  · exact Or.inl ⟨a, q, hr, hR a b hab, hq⟩
  · exact Or.inr hfails

theorem Follows.loosely (h : Follows R r r') : Loosely r r' :=
  h.mono fun _ _ _ => trivial

theorem Follows.map {f : α → γ} {f' : β → δ} (h : Follows R r r')
    (hf : ∀ a b, R a b → S (f a) (f' b)) : Follows S (f <$> r) (f' <$> r') := by
  rw [map_eq_pure_bind, map_eq_pure_bind]
  exact h.bind fun a b hab => follows_pure (hf a b hab)

theorem follows_ite {c : Bool} {x y : Reader n α} {x' y' : Reader n' β} (hx : Follows R x x')
    (hy : Follows R y y') :
    Follows R (if c = true then x else y) (if c = true then x' else y') := by
  split
  · exact hx
  · exact hy

/-- Two ways to a value, and one way on from it. -/
theorem follows_join {c : Bool} {x y : Reader n α} {x' y' : Reader n' β} {f : α → Reader n γ}
    {f' : β → Reader n' δ} (hx : Loosely x x') (hy : Loosely y y')
    (hf : ∀ a b, Follows S (f a) (f' b)) :
    Follows S (if c = true then x >>= f else y >>= f)
      (if c = true then x' >>= f' else y' >>= f') :=
  follows_ite (hx.andThen hf) (hy.andThen hf)

/-- Nothing has to follow a reader that fails. -/
theorem follows_throw {e : BuildError} : Follows R r (throw e : Reader n' β) := by
  intro p p' hp b q' hr'
  cases hr'

end

/-! ## Children -/

section

variable {R : α → β → Prop} {kinds : List String}
  {body : (c : Node) → c ∈ n.children → Reader c α}
  {body' : (c : Node) → c ∈ n'.children → Reader c β}

/-- A child that is no expression is read alike if its children are. -/
theorem follows_inside_of_kind (hkinds : kinds.contains "expression" = false)
    (hb : ∀ c hc c' hc', c.kind = c'.kind → Follows R (body c hc) (body' c' hc')) :
    Follows R (inside kinds body) (inside kinds body') := by
  intro p p' hp b q' h'
  obtain ⟨c', rest', hc', q₁', hs', hk', hb', hq₁', hq'⟩ := exists_of_inside h'
  have hskip := Node.alike_skipComments hp
  rw [hs'] at hskip
  obtain ⟨c, rest, hcc', hrests, hs⟩ := List.forall₂_cons_right_iff.mp hskip
  have hk : kinds.contains c.kind = true := hcc'.kind_eq ▸ hk'
  have hne : c.kind ≠ "expression" := by
    intro h
    rw [h, hkinds] at hk
    cases hk
  have hexpressions : Node.expressionsAll p.left =
      Node.expressionsAll c.children ++ Node.expressionsAll rest := by
    rw [← Node.expressionsAll_skipComments, hs, Node.expressionsAll,
      Node.expressions_of_not (Node.isComment_of_skipComments hs) hne]
  obtain ⟨hc, hrest, heq⟩ := inside_of_next body hs hk
  rw [Succeeds, Fails, heq]
  rcases hb c hc c' hc' hcc'.kind_eq (entering c p) (entering c' p') (hcc'.children hne) b q₁' hb'
    with ⟨a, q₁, hr, hab, hq₁, read, hcov, hread⟩ | ⟨e, hr, read, x, more, hx, hread, he⟩
  · have hcomments := Node.alike_comments hq₁ hq₁'
    obtain ⟨texts, hleave⟩ : ∃ texts, Node.leave c.kind q₁.left = .ok texts :=
      Node.leave_eq_ok_iff.mpr hcomments
    refine Or.inl ⟨a, ⟨rest, hrest, q₁.comments ++ texts⟩, ?_, hab, hq' ▸ hrests, read, ?_, hread⟩
    · rw [hr, leaving, hleave]
    · rw [hexpressions, show Node.expressionsAll c.children = _ from hcov,
        Node.expressionsAll_comments hcomments, List.append_nil]
  · refine Or.inr ⟨e, ?_, read, x, more ++ Node.expressionsAll rest, ?_, hread, he⟩
    · rw [hr]
      rfl
    · rw [hexpressions, show Node.expressionsAll c.children = _ from hx, List.append_assoc]
      rfl

theorem follows_inside (hkinds : kinds.contains "expression" = false)
    (hb : ∀ c hc c' hc', Follows R (body c hc) (body' c' hc')) :
    Follows R (inside kinds body) (inside kinds body') :=
  follows_inside_of_kind hkinds fun c hc c' hc' _ => hb c hc c' hc'

theorem agree_expect (hkinds : kinds.contains "expression" = false) :
    Agree (MonadWalk.expect kinds : Reader n String) (MonadWalk.expect kinds : Reader n' String) :=
  follows_inside_of_kind hkinds fun _ _ _ _ hk => follows_pure hk

theorem loosely_token {kind : String} (hkinds : [kind].contains "expression" = false) :
    Loosely (token kind : Reader n Unit) (token kind : Reader n' Unit) :=
  (agree_expect hkinds).cases fun _ => loosely_pure

theorem follows_peek : Follows (fun o o' => o.map Node.kind = o'.map Node.kind)
    (MonadWalk.peek? : Reader n (Option Node)) (MonadWalk.peek? : Reader n' (Option Node)) := by
  intro p p' hp b q' h'
  cases h'
  refine Or.inl ⟨Node.next? p.left, p, rfl, ?_, hp, .refl _⟩
  have hskip := Node.alike_skipComments hp
  rw [Node.next?, Node.next?]
  generalize (Node.skipComments p.left).2 = l, (Node.skipComments p'.left).2 = l' at hskip
  cases hskip with
  | nil => rfl
  | cons hc _ => exact congrArg some hc.kind_eq

theorem agree_peekKind : Agree (MonadWalk.peekKind? : Reader n (Option String))
    (MonadWalk.peekKind? : Reader n' (Option String)) :=
  follows_peek.bind fun _ _ h => follows_pure h

theorem agree_nextIs : Agree (MonadWalk.nextIs kinds : Reader n Bool)
    (MonadWalk.nextIs kinds : Reader n' Bool) :=
  agree_peekKind.cases fun _ => follows_pure rfl

theorem agree_tryMatch (hkinds : kinds.contains "expression" = false) :
    Agree (MonadWalk.tryMatch kinds : Reader n (Option String))
      (MonadWalk.tryMatch kinds : Reader n' (Option String)) := by
  refine agree_nextIs.cases fun next => ?_
  cases next with
  | true => exact (agree_expect hkinds).cases fun _ => follows_pure rfl
  | false => exact follows_pure rfl

theorem agree_tryToken {kind : String} (hkinds : [kind].contains "expression" = false) :
    Agree (MonadWalk.tryToken kind : Reader n Bool) (MonadWalk.tryToken kind : Reader n' Bool) :=
  (agree_tryMatch hkinds).cases fun _ => follows_pure rfl

theorem loosely_name :
    Loosely (MonadWalk.name : Reader n String) (MonadWalk.name : Reader n' String) := by
  refine follows_peek.bind fun next next' hnext => ?_
  cases next' with
  | none => exact loosely_pure.andThen fun _ _ => follows_throw
  | some c' =>
    cases next with
    | none => cases hnext
    | some c =>
      have hkind : c.kind = c'.kind := Option.some.inj hnext
      dsimp only
      rw [hkind]
      split
      · exact (agree_expect rfl).cases fun _ => loosely_pure
      · exact loosely_pure.andThen fun _ _ => follows_throw

theorem loosely_takeComments : Loosely (takeComments : Reader n (List String))
    (takeComments : Reader n' (List String)) := by
  intro p p' hp b q' h'
  cases h'
  exact Or.inl ⟨p.comments, ⟨p.left, p.within, []⟩, rfl, trivial, hp, .refl _⟩

end

/-! ## Repeating -/

section

variable {step : Reader n (Option α)} {step' : Reader n' (Option β)}

theorem follows_repeating (hs : Follows Both step step') (p : Place n) (p' : Place n')
    (hp : List.Forall₂ Alike p.left p'.left) {items' : List β} {q' : Place n'}
    (h' : repeating step' p' = .ok (items', q')) :
    Succeeds (fun _ _ => True) (gather step) p items' q' ∨ Fails (gather step) p := by
  rw [Succeeds, Fails, gather, repeating.eq_def step p]
  rw [repeating] at h'
  split at h'
  · cases h'
  · rename_i p₁' hstep'
    cases h'
    rcases hs p p' hp none q' hstep' with ⟨o, q, hstep, hboth, hq, hcov⟩ | ⟨e, hstep, he⟩
    · cases o with
      | some a => cases hboth
      | none =>
        rw [hstep]
        exact Or.inl ⟨[], q, rfl, trivial, hq, hcov⟩
    · rw [hstep]
      exact Or.inr ⟨e, rfl, he⟩
  · rename_i b p₁' hstep'
    rcases hs p p' hp (some b) p₁' hstep' with
      ⟨o, p₁, hstep, hboth, hp₁, hcov⟩ | ⟨e, hstep, he⟩
    · cases o with
      | none => cases hboth
      | some a =>
        rw [hstep]
        dsimp only
        rw [hp₁.length_eq, hp.length_eq]
        split at h'
        · rename_i hlt'
          rw [if_pos hlt']
          have hlt : p₁.left.length < p.left.length := by rwa [hp₁.length_eq, hp.length_eq]
          split at h'
          · cases h'
          · rename_i more' r' hmore'
            cases h'
            rcases follows_repeating hs p₁ p₁' hp₁ hmore' with
              ⟨more, q, hmore, -, hq, hcov'⟩ | ⟨e, hmore, he⟩
            · rw [show repeating step p₁ = _ from hmore]
              exact Or.inl ⟨a :: more, q, rfl, trivial, hq, hcov.trans hcov'⟩
            · rw [show repeating step p₁ = _ from hmore]
              exact Or.inr ⟨e, rfl, hcov.blames he⟩
        · rename_i hlt'
          rw [if_neg hlt']
          cases h'
          exact Or.inl ⟨[a], p₁, rfl, trivial, hp₁, hcov⟩
    · rw [hstep]
      exact Or.inr ⟨e, rfl, he⟩
termination_by p.left.length

theorem loosely_gather (hs : Follows Both step step') : Loosely (gather step) (gather step') :=
  fun p p' hp _ _ h' => follows_repeating hs p p' hp h'

variable {kind separator : String} {body : (c : Node) → c ∈ n.children → Reader c α}
  {body' : (c : Node) → c ∈ n'.children → Reader c β} {item : Reader n α} {item' : Reader n' β}

theorem both_optional (hkinds : [kind].contains "expression" = false)
    (hb : ∀ c hc c' hc', Loosely (body c hc) (body' c' hc')) :
    Follows Both (Reader.optional kind body) (Reader.optional kind body') := by
  refine agree_nextIs.cases fun next => ?_
  cases next with
  | true => exact (follows_inside hkinds hb).andThen fun _ _ => follows_pure rfl
  | false => exact follows_pure rfl

theorem loosely_many (hkinds : [kind].contains "expression" = false)
    (hb : ∀ c hc c' hc', Loosely (body c hc) (body' c' hc')) :
    Loosely (many kind body) (many kind body') :=
  loosely_gather (both_optional hkinds hb)

/-- Items behind one token each. -/
theorem loosely_gather_behind (hkinds : [separator].contains "expression" = false)
    (hi : Loosely item item') :
    Loosely
      (gather do
        if ← MonadWalk.tryToken separator then
          let a ← item
          return some a
        else
          return none)
      (gather do
        if ← MonadWalk.tryToken separator then
          let a ← item'
          return some a
        else
          return none) := by
  refine loosely_gather ((agree_tryToken hkinds).cases fun found => ?_)
  cases found with
  | true => exact hi.andThen fun _ _ => follows_pure rfl
  | false => exact follows_pure rfl

theorem loosely_separated (hkinds : [separator].contains "expression" = false)
    (hi : Loosely item item') :
    Loosely (separated separator item) (separated separator item') :=
  hi.andThen fun _ _ => (loosely_gather_behind hkinds hi).andThen fun _ _ => loosely_pure

end

end Reader

end Rubify
