import Rubify.Proofs.Grammar.Blind

/-!
# What readers accept, comments aside

`Node.bare` is a tree without its comments. `Accepts r R` says exactly when a reader succeeds, in terms
of bare siblings: from the siblings `l` it comes to the result `a` and leaves `rest` iff `R l a rest`.
There is one rule per way to put readers together, so the relation of a reader follows its definition;
what is read inside a child has to take all of its children.

A reader that repeats a step goes on as long as the step finds something (`Repeats`), and one that reads
items between separators as long as it finds separators (`Separated`).
-/

namespace Rubify

variable {n : Node} {α β : Type}

/-! ## Trees without comments -/

namespace Node

mutual

/-- The tree without the comments in it. -/
def bare : Node → Node
  | ⟨kind, payload, children⟩ => ⟨kind, payload, bareAll children⟩

/-- Several trees without the comments among them and in them. -/
def bareAll : List Node → List Node
  | [] => []
  | n :: rest => if n.isComment then bareAll rest else n.bare :: bareAll rest

end

variable {c : Node} {l l' rest : List Node}

@[simp]
theorem kind_bare (c : Node) : c.bare.kind = c.kind := by
  cases c
  rfl

@[simp]
theorem text_bare (c : Node) : c.bare.text = c.text := by
  cases c
  rfl

@[simp]
theorem children_bare (c : Node) : c.bare.children = bareAll c.children := by
  cases c
  rfl

theorem bareAll_append (l l' : List Node) : bareAll (l ++ l') = bareAll l ++ bareAll l' := by
  induction l with
  | nil => rfl
  | cons c l ih =>
    rw [List.cons_append, bareAll, bareAll, ih]
    split <;> rfl

theorem bareAll_skipComments (l : List Node) : bareAll (skipComments l).2 = bareAll l := by
  induction l with
  | nil => rfl
  | cons c l ih =>
    unfold skipComments
    by_cases hc : c.isComment = true
    · simp only [bareAll, hc, if_true, ih]
    · simp only [hc]
      rfl

theorem bareAll_of_next (h : (skipComments l).2 = c :: rest) :
    bareAll l = c.bare :: bareAll rest := by
  have hc : c.isComment = false := isComment_of_skipComments h
  rw [← bareAll_skipComments, h, bareAll, hc]
  rfl

theorem bareAll_of_end (h : (skipComments l).2 = []) : bareAll l = [] := by
  rw [← bareAll_skipComments, h]
  rfl

/-- Nothing but comments is left iff nothing is left of the bare siblings. -/
theorem bareAll_eq_nil_iff : bareAll l = [] ↔ ∀ c ∈ l, c.isComment = true := by
  induction l with
  | nil => simp [bareAll]
  | cons c l ih =>
    rw [bareAll, List.forall_mem_cons]
    by_cases hc : c.isComment = true
    · simp [hc, ih]
    · simp [hc]

/-- Whether the first of several nodes has one of the kinds. -/
def headIn (kinds : List String) (l : List Node) : Bool :=
  l.head?.any fun c => kinds.contains c.kind

theorem headIn_bareAll (kinds : List String) (l : List Node) :
    headIn kinds (bareAll l) = (nextKind? l).any (kinds.contains ·) := by
  unfold headIn nextKind? next?
  cases hs : (skipComments l).2 with
  | nil => simp [bareAll_of_end hs]
  | cons c rest => simp [bareAll_of_next hs]

/-- A childless node of a kind. -/
def IsLeafOf (kind : String) (c : Node) : Prop :=
  c.kind = kind ∧ c.children = []

theorem headIn_of_kind {kinds : List String} (h : c.kind ∉ kinds) :
    headIn kinds (c :: rest) = false := by
  simpa [headIn] using h

end Node

namespace Reader

open Node (bareAll headIn)

/-! ## One step after another -/

/-- The reader comes from the bare siblings `l` to the result `a`, and leaves `rest`, iff `R l a rest`. -/
def Accepts (r : Reader n α) (R : List Node → α → List Node → Prop) : Prop :=
  ∀ p a rest, (∃ q, r p = .ok (a, q) ∧ bareAll q.left = rest) ↔ R (bareAll p.left) a rest

variable {R S : List Node → α → List Node → Prop} {x y : Reader n α}

theorem Accepts.congr (h : Accepts x R) (heq : ∀ l a rest, R l a rest ↔ S l a rest) : Accepts x S :=
  fun p a rest => (h p a rest).trans (heq _ _ _)

theorem accepts_pure {a : α} : Accepts (pure a : Reader n α) fun l b rest => b = a ∧ rest = l := by
  intro p b rest
  constructor
  · rintro ⟨q, h, rfl⟩
    cases h
    exact ⟨rfl, rfl⟩
  · rintro ⟨rfl, rfl⟩
    exact ⟨p, rfl, rfl⟩

theorem Accepts.bind {f : α → Reader n β} {T : α → List Node → β → List Node → Prop}
    (hx : Accepts x R) (hf : ∀ a, Accepts (f a) (T a)) :
    Accepts (x >>= f) fun l b rest => ∃ a mid, R l a mid ∧ T a mid b rest := by
  intro p b rest
  constructor
  · rintro ⟨q, h, hq⟩
    obtain ⟨a, p₁, h₁, h₂⟩ := bind_eq_ok.mp h
    exact ⟨a, bareAll p₁.left, (hx p a _).mp ⟨p₁, h₁, rfl⟩, (hf a p₁ b rest).mp ⟨q, h₂, hq⟩⟩
  · rintro ⟨a, mid, hR, hT⟩
    obtain ⟨p₁, h₁, rfl⟩ := (hx p a mid).mpr hR
    obtain ⟨q, h₂, hq⟩ := (hf a p₁ b rest).mpr hT
    exact ⟨q, bind_eq_ok.mpr ⟨a, p₁, h₁, h₂⟩, hq⟩

/-! ## Children -/

/-- The reader comes from the bare siblings `l` to the result `a`, and leaves none, iff `P l a`. -/
def AcceptsAll (r : Reader n α) (P : List Node → α → Prop) : Prop :=
  ∀ p a, (∃ q, r p = .ok (a, q) ∧ bareAll q.left = []) ↔ P (bareAll p.left) a

theorem Accepts.all {P : List Node → α → Prop} (h : Accepts x R) (heq : ∀ l a, R l a [] ↔ P l a) :
    AcceptsAll x P :=
  fun p a => (h p a []).trans (heq _ _)

section

variable {kinds : List String} {kind : String} {body : (c : Node) → c ∈ n.children → Reader c α}
  {P : List Node → α → Prop}

/-- A child is read by the reader of its own children, which takes all of them. -/
theorem accepts_child {B : Node → List Node → α → Prop}
    (hb : ∀ c hc, AcceptsAll (body c hc) (B c.bare)) :
    Accepts (inside kinds body) fun l a rest =>
      ∃ c, l = c :: rest ∧ c.kind ∈ kinds ∧ B c c.children a := by
  intro p a rest
  constructor
  · rintro ⟨q, h, rfl⟩
    obtain ⟨c, rest, hc, q₁, hs, hk, hbody, hq₁, hq⟩ := exists_of_inside h
    refine ⟨c.bare, by rw [Node.bareAll_of_next hs, hq], by simpa using hk, ?_⟩
    rw [Node.children_bare]
    exact (hb c hc _ a).mp ⟨q₁, hbody, Node.bareAll_eq_nil_iff.mpr hq₁⟩
  · rintro ⟨c', hl, hk, hB⟩
    cases hs : (Node.skipComments p.left).2 with
    | nil =>
      rw [Node.bareAll_of_end hs] at hl
      cases hl
    | cons c rest' =>
      rw [Node.bareAll_of_next hs] at hl
      cases hl
      obtain ⟨hc, hrest, heq⟩ := inside_of_next body hs
        (show kinds.contains c.kind = true by simpa using hk)
      rw [Node.children_bare] at hB
      obtain ⟨q₁, hbody, hq₁⟩ := (hb c hc (entering c p) a).mpr hB
      obtain ⟨texts, hleave⟩ : ∃ texts, Node.leave c.kind q₁.left = .ok texts :=
        Node.leave_eq_ok_iff.mpr (Node.bareAll_eq_nil_iff.mp hq₁)
      refine ⟨⟨rest', hrest, q₁.comments ++ texts⟩, ?_, rfl⟩
      rw [heq, hbody, leaving, hleave]

theorem accepts_inside (kinds : List String) (hb : ∀ c hc, AcceptsAll (body c hc) P) :
    Accepts (inside kinds body) fun l a rest =>
      ∃ c, l = c :: rest ∧ c.kind ∈ kinds ∧ P c.children a :=
  accepts_child (B := fun _ => P) hb

theorem accepts_expect : Accepts (MonadWalk.expect kinds : Reader n String) fun l k rest =>
    ∃ c, l = c :: rest ∧ c.kind ∈ kinds ∧ c.children = [] ∧ k = c.kind :=
  accepts_child (B := fun c l k => l = [] ∧ k = c.kind) fun c _ =>
    accepts_pure.all fun l k => by rw [Node.kind_bare, and_comm, eq_comm (a := l)]

theorem accepts_token (kind : String) : Accepts (token kind : Reader n Unit) fun l _ rest =>
    ∃ c, l = c :: rest ∧ c.IsLeafOf kind := by
  refine (accepts_expect.bind fun _ => accepts_pure).congr fun l _ rest => ?_
  constructor
  · rintro ⟨_, _, ⟨c, rfl, hk, hleaf, rfl⟩, -, rfl⟩
    exact ⟨c, rfl, List.mem_singleton.mp hk, hleaf⟩
  · rintro ⟨c, rfl, hk, hleaf⟩
    exact ⟨_, _, ⟨c, rfl, List.mem_singleton.mpr hk, hleaf, rfl⟩, rfl, rfl⟩

/-- Looking at the next child takes nothing. -/
theorem nextIs_eq (p : Place n) :
    (MonadWalk.nextIs kinds : Reader n Bool) p = .ok (headIn kinds (bareAll p.left), p) := by
  rw [Node.headIn_bareAll]
  rfl

/-- A choice by the kind of the next child. -/
theorem accepts_if (hx : Accepts x R) (hy : Accepts y S) :
    Accepts (MonadWalk.nextIs kinds >>= fun found => if found = true then x else y) fun l a rest =>
      (headIn kinds l = true ∧ R l a rest) ∨ (headIn kinds l = false ∧ S l a rest) := by
  intro p a rest
  rw [bind_of_ok (nextIs_eq p)]
  cases hfound : headIn kinds (bareAll p.left) with
  | true => simpa [hfound] using hx p a rest
  | false => simpa [hfound] using hy p a rest

theorem accepts_tryMatch : Accepts (MonadWalk.tryMatch kinds : Reader n (Option String))
    fun l o rest => (∃ c, l = c :: rest ∧ c.kind ∈ kinds ∧ c.children = [] ∧ o = some c.kind) ∨
      (headIn kinds l = false ∧ o = none ∧ rest = l) := by
  refine (accepts_if (accepts_expect.bind fun _ => accepts_pure) accepts_pure).congr
    fun l o rest => or_congr ?_ Iff.rfl
  constructor
  · rintro ⟨-, _, _, ⟨c, rfl, hk, hleaf, rfl⟩, rfl, rfl⟩
    exact ⟨c, rfl, hk, hleaf, rfl⟩
  · rintro ⟨c, rfl, hk, hleaf, rfl⟩
    exact ⟨by simpa [headIn] using hk, _, _, ⟨c, rfl, hk, hleaf, rfl⟩, rfl, rfl⟩

/-- A choice by what was found before. -/
theorem accepts_choice (found : Bool) (hx : Accepts x R) (hy : Accepts y S) :
    Accepts (if found = true then x else y) fun l a rest =>
      (found = true ∧ R l a rest) ∨ (found = false ∧ S l a rest) := by
  cases found with
  | true => exact hx.congr fun l a rest => by simp
  | false => exact hy.congr fun l a rest => by simp

/-- A choice by a token, which is taken if it is there. -/
theorem accepts_if_token (kind : String) (hx : Accepts x R) (hy : Accepts y S) :
    Accepts (MonadWalk.tryToken kind >>= fun found => if found = true then x else y) fun l a rest =>
      (∃ c mid, l = c :: mid ∧ c.IsLeafOf kind ∧ R mid a rest) ∨
        (headIn [kind] l = false ∧ S l a rest) := by
  have htoken : Accepts (MonadWalk.tryToken kind : Reader n Bool) fun l found rest =>
      (∃ c, l = c :: rest ∧ c.IsLeafOf kind ∧ found = true) ∨
        (headIn [kind] l = false ∧ found = false ∧ rest = l) := by
    refine (accepts_tryMatch.bind fun _ => accepts_pure).congr fun l found rest => ?_
    constructor
    · rintro ⟨_, _, ⟨c, rfl, hk, hleaf, rfl⟩ | ⟨hnot, rfl, rfl⟩, rfl, rfl⟩
      · exact Or.inl ⟨c, rfl, ⟨List.mem_singleton.mp hk, hleaf⟩, rfl⟩
      · exact Or.inr ⟨hnot, rfl, rfl⟩
    · rintro (⟨c, rfl, ⟨hk, hleaf⟩, rfl⟩ | ⟨hnot, rfl, rfl⟩)
      · exact ⟨_, _, Or.inl ⟨c, rfl, List.mem_singleton.mpr hk, hleaf, rfl⟩, rfl, rfl⟩
      · exact ⟨_, _, Or.inr ⟨hnot, rfl, rfl⟩, rfl, rfl⟩
  refine (htoken.bind fun found => accepts_choice found hx hy).congr fun l a rest => ?_
  constructor
  · rintro ⟨_, mid, ⟨c, rfl, hleaf, rfl⟩ | ⟨hnot, rfl, rfl⟩, ⟨hfound, hR⟩ | ⟨hfound, hS⟩⟩
    · exact Or.inl ⟨c, mid, rfl, hleaf, hR⟩
    · cases hfound
    · cases hfound
    · exact Or.inr ⟨hnot, hS⟩
  · rintro (⟨c, mid, rfl, hleaf, hR⟩ | ⟨hnot, hS⟩)
    · exact ⟨true, mid, Or.inl ⟨c, rfl, hleaf, rfl⟩, Or.inl ⟨rfl, hR⟩⟩
    · exact ⟨false, l, Or.inr ⟨hnot, rfl, rfl⟩, Or.inr ⟨rfl, hS⟩⟩

theorem accepts_optional (hb : ∀ c hc, AcceptsAll (body c hc) P) :
    Accepts (Reader.optional kind body) fun l o rest =>
      (∃ c a, l = c :: rest ∧ c.kind = kind ∧ P c.children a ∧ o = some a) ∨
        (headIn [kind] l = false ∧ o = none ∧ rest = l) := by
  refine (accepts_if ((accepts_inside [kind] hb).bind fun _ => accepts_pure) accepts_pure).congr
    fun l o rest => or_congr ?_ Iff.rfl
  constructor
  · rintro ⟨-, a, _, ⟨c, rfl, hk, hP⟩, rfl, rfl⟩
    exact ⟨c, a, rfl, List.mem_singleton.mp hk, hP, rfl⟩
  · rintro ⟨c, a, rfl, hk, hP, rfl⟩
    exact ⟨by simpa [headIn] using hk, a, _, ⟨c, rfl, List.mem_singleton.mpr hk, hP⟩, rfl, rfl⟩

theorem accepts_name : Accepts (MonadWalk.name : Reader n String) fun l s rest =>
    ∃ c, l = c :: rest ∧ c.IsLeafOf "Identifier" ∧ s = c.text := by
  intro p s rest
  unfold MonadWalk.name
  have hpeek : (MonadWalk.peek? : Reader n (Option Node)) p = .ok (Node.next? p.left, p) := rfl
  rw [bind_of_ok hpeek, Node.next?]
  cases hs : (Node.skipComments p.left).2 with
  | nil =>
    rw [Node.bareAll_of_end hs]
    refine iff_of_false ?_ (by simp)
    rintro ⟨q, h, -⟩
    cases h
  | cons c more =>
    rw [Node.bareAll_of_next hs]
    by_cases hk : c.kind = "Identifier"
    · simp only [List.head?_cons, hk, if_true]
      refine ((accepts_expect.bind fun _ => accepts_pure) p s rest).trans ?_
      rw [Node.bareAll_of_next hs]
      constructor
      · rintro ⟨_, _, ⟨d, heq, -, hleaf, rfl⟩, rfl, rfl⟩
        cases heq
        exact ⟨c.bare, rfl, ⟨by simpa using hk, hleaf⟩, (Node.text_bare c).symm⟩
      · rintro ⟨d, heq, ⟨hd, hleaf⟩, rfl⟩
        cases heq
        exact ⟨_, _, ⟨c.bare, rfl, List.mem_singleton.mpr hd, hleaf, rfl⟩, Node.text_bare c, rfl⟩
    · simp only [List.head?_cons, hk, if_false]
      refine iff_of_false ?_ ?_
      · rintro ⟨q, h, -⟩
        cases h
      · rintro ⟨d, heq, ⟨hd, -⟩, -⟩
        cases heq
        exact hk (by simpa using hd)

end

/-- A tree can be read iff its reader takes it and leaves nothing. -/
theorem readTree_iff {tree : Node} {r : Reader (above tree) α} {P : List Node → α → Prop}
    (h : AcceptsAll r P) {a : α} :
    (∃ comments, readTree tree r = .ok (a, comments)) ↔ P (bareAll [tree]) a := by
  refine Iff.trans ?_ (h ⟨[tree], List.suffix_refl _, []⟩ a)
  unfold readTree
  constructor
  · rintro ⟨comments, hread⟩
    split at hread
    · cases hread
    · rename_i b q hb
      split at hread
      · cases hread
      · rename_i texts hleave
        cases hread
        exact ⟨q, hb, Node.bareAll_eq_nil_iff.mpr (Node.leave_eq_ok_iff.mp ⟨texts, hleave⟩)⟩
  · rintro ⟨q, hq, hleft⟩
    obtain ⟨texts, hleave⟩ : ∃ texts, Node.leave Node.aboveRoot q.left = .ok texts :=
      Node.leave_eq_ok_iff.mpr (Node.bareAll_eq_nil_iff.mp hleft)
    exact ⟨q.comments ++ texts, by simp only [hq, hleave]⟩

/-! ## Repeating -/

/-- A step that is repeated until it finds nothing. -/
inductive Repeats (S : List Node → Option α → List Node → Prop) :
    List Node → List α → List Node → Prop
  | stop {l rest : List Node} : S l none rest → Repeats S l [] rest
  | more {l mid rest : List Node} {a : α} {as : List α} :
      S l (some a) mid → Repeats S mid as rest → Repeats S l (a :: as) rest

/-- A place that has fewer bare siblings left has fewer siblings left. -/
theorem length_lt_of_bareAll {p q : Place n}
    (h : (bareAll q.left).length < (bareAll p.left).length) : q.left.length < p.left.length := by
  by_contra hle
  obtain ⟨front, hfront⟩ := List.suffix_of_suffix_length_le p.within q.within (by omega)
  rw [← hfront, Node.bareAll_append, List.length_append] at h
  omega

theorem repeating_of_repeats {step : Reader n (Option α)} {S : List Node → Option α → List Node → Prop}
    (hs : Accepts step S) (hlt : ∀ l a mid, S l (some a) mid → mid.length < l.length)
    {l rest : List Node} {as : List α} (h : Repeats S l as rest) :
    ∀ p : Place n, bareAll p.left = l → ∃ q, repeating step p = .ok (as, q) ∧ bareAll q.left = rest := by
  induction h with
  | @stop l rest hstop =>
    rintro p rfl
    obtain ⟨q, hq, hrest⟩ := (hs p none rest).mpr hstop
    exact ⟨q, by rw [repeating, hq], hrest⟩
  | @more l mid rest a as hstep _ ih =>
    rintro p rfl
    obtain ⟨p₁, hp₁, rfl⟩ := (hs p (some a) mid).mpr hstep
    obtain ⟨q, hq, hrest⟩ := ih p₁ rfl
    refine ⟨q, ?_, hrest⟩
    rw [repeating, hp₁]
    simp only [length_lt_of_bareAll (hlt _ _ _ hstep), if_true, hq]

theorem repeats_of_repeating {step : Reader n (Option α)} {S : List Node → Option α → List Node → Prop}
    (hs : Accepts step S) (hlt : ∀ l a mid, S l (some a) mid → mid.length < l.length) (p : Place n)
    {as : List α} {q : Place n} (h : repeating step p = .ok (as, q)) :
    Repeats S (bareAll p.left) as (bareAll q.left) := by
  rw [repeating] at h
  split at h
  · cases h
  · rename_i hnone
    cases h
    exact .stop ((hs p none _).mp ⟨q, hnone, rfl⟩)
  · rename_i a p₁ hsome
    have hstep := (hs p (some a) _).mp ⟨p₁, hsome, rfl⟩
    have hless := length_lt_of_bareAll (hlt _ _ _ hstep)
    rw [if_pos hless] at h
    split at h
    · cases h
    · rename_i more r hmore
      cases h
      exact .more hstep (repeats_of_repeating hs hlt p₁ hmore)
termination_by p.left.length

/-- A step that takes a child whenever it finds something can be repeated. -/
theorem accepts_gather {step : Reader n (Option α)} {S : List Node → Option α → List Node → Prop}
    (hs : Accepts step S) (hlt : ∀ l a mid, S l (some a) mid → mid.length < l.length) :
    Accepts (gather step) (Repeats S) := by
  intro p as rest
  constructor
  · rintro ⟨q, h, rfl⟩
    exact repeats_of_repeating hs hlt p h
  · intro h
    exact repeating_of_repeats hs hlt h p rfl

/-- Items with separators between them, up to something else. -/
inductive Separated (separator : String) (R : List Node → α → List Node → Prop) :
    List Node → List α → List Node → Prop
  | last {l rest : List Node} {a : α} :
      R l a rest → headIn [separator] rest = false → Separated separator R l [a] rest
  | more {l mid rest : List Node} {s : Node} {a : α} {as : List α} :
      R l a (s :: mid) → s.IsLeafOf separator → Separated separator R mid as rest →
        Separated separator R l (a :: as) rest

theorem accepts_separated (separator : String) {item : Reader n α} (hi : Accepts item R)
    (hle : ∀ l a mid, R l a mid → mid.length ≤ l.length) :
    Accepts (Reader.separated separator item) (Separated separator R) := by
  have hstep : Accepts (n := n) _ _ :=
    accepts_if_token separator (hi.bind fun a => accepts_pure (a := some a))
      (accepts_pure (a := none))
  refine (hi.bind fun first => (accepts_gather hstep ?_).bind fun more =>
    accepts_pure (a := first :: more)).congr fun l as rest => ?_
  · rintro l a mid (⟨c, mid', rfl, -, _, _, hR, -, rfl⟩ | ⟨-, h, -⟩)
    · exact Nat.lt_succ_of_le (hle _ _ _ hR)
    · cases h
  · constructor
    · rintro ⟨first, mid, hfirst, more, _, hmore, rfl, rfl⟩
      induction hmore generalizing l first with
      | stop h =>
        obtain ⟨c, _, -, -, _, _, -, h, -⟩ | ⟨hnot, -, rfl⟩ := h
        · cases h
        · exact .last hfirst hnot
      | more h _ ih =>
        obtain ⟨c, mid, rfl, hleaf, a, _, hR, heq, rfl⟩ | ⟨-, h, -⟩ := h
        · cases heq
          exact .more hfirst hleaf (ih _ _ hR)
        · cases h
    · intro h
      induction h with
      | @last l rest a hR hnot =>
        exact ⟨a, rest, hR, [], rest, .stop (Or.inr ⟨hnot, rfl, rfl⟩), rfl, rfl⟩
      | @more l mid rest s a as hR hleaf _ ih =>
        obtain ⟨b, mid', hb, bs, _, hbs, rfl, rfl⟩ := ih
        exact ⟨a, s :: mid, hR, b :: bs, _,
          .more (Or.inl ⟨s, mid, rfl, hleaf, b, mid', hb, rfl, rfl⟩) hbs, rfl, rfl⟩

end Reader

end Rubify
