import Rubify.Grammar.Unit
import Rubify.Phrase.Declaration
import Rubify.Proofs.Comments.Reader

/-!
# Readers on given children

`Takes r left a rest` says what a reader does on certain children: it succeeds with `a`, takes the
children up to `rest`, and leaves no comment behind. There is one rule per way to put readers
together, so that a reader can be run on a tree that is only partly known, child by child. The side
conditions are about the kind of the next child; they compute.

A reader of whole nodes does not look at the node around them, so what one successful run of
`readTree` shows holds everywhere (`takes_of_readTree`).
-/

namespace Rubify

variable {n : Node} {α β γ : Type}

/-- Whether the next of several nodes has one of the kinds. -/
def Node.nextHas (kinds : List String) (left : List Node) : Bool :=
  (Node.nextKind? left).any (kinds.contains ·)

/-- Whether the node has one of the kinds and is no comment. -/
def Node.isAmong (kinds : List String) (c : Node) : Bool :=
  !c.isComment && kinds.contains c.kind

/-- Whether the node has one of the kinds and no children. -/
def Node.isToken (kinds : List String) (c : Node) : Bool :=
  c.children.isEmpty && c.isAmong kinds

section

variable {c : Node} {kind : String} {kinds : List String}

theorem Node.isAmong_iff :
    c.isAmong kinds = true ↔ c.isComment = false ∧ kinds.contains c.kind = true := by
  simp [isAmong]

theorem Node.isAmong_of_kind (hkind : c.kind = kind) (hnot : kind ≠ "line_comment") :
    c.isAmong [kind] = true := by
  simp [isAmong, isComment, hkind, hnot]

theorem Node.isToken_iff : c.isToken kinds = true ↔ c.children = [] ∧ c.isAmong kinds = true := by
  simp [isToken]

theorem Node.skipComments_of_not (h : c.isComment = false) (rest : List Node) :
    Node.skipComments (c :: rest) = ([], c :: rest) := by
  rw [Node.skipComments, h]
  rfl

theorem Node.nextKind?_of_not (h : c.isComment = false) (rest : List Node) :
    Node.nextKind? (c :: rest) = some c.kind := by
  simp [nextKind?, next?, skipComments_of_not h]

theorem Node.nextKind?_of_kind (hkind : c.kind = kind) (hnot : kind ≠ "line_comment")
    (rest : List Node) : Node.nextKind? (c :: rest) = some kind := by
  rw [nextKind?_of_not (by simp [isComment, hkind, hnot]), hkind]

theorem Node.nextHas_of_kind (hkind : c.kind = kind) (hnot : kind ≠ "line_comment")
    (rest : List Node) : Node.nextHas kinds (c :: rest) = kinds.contains kind := by
  rw [nextHas, nextKind?_of_kind hkind hnot]
  rfl

theorem Node.nextHas_of_isAmong (h : c.isAmong kinds = true) (rest : List Node) :
    Node.nextHas kinds (c :: rest) = true := by
  obtain ⟨hnot, hkind⟩ := isAmong_iff.mp h
  rw [nextHas, nextKind?_of_not hnot]
  exact hkind

end

theorem Place.ext {p q : Place n} (hleft : p.left = q.left) (hcomments : p.comments = q.comments) :
    p = q := by
  cases p
  cases q
  cases hleft
  cases hcomments
  rfl

namespace Reader

/-- On the children `left`, with no comment passed, the reader gives `a` and leaves `rest`. -/
def Takes (r : Reader n α) (left : List Node) (a : α) (rest : List Node) : Prop :=
  ∀ p : Place n, p.left = left → p.comments = [] →
    ∃ q : Place n, r p = .ok (a, q) ∧ q.left = rest ∧ q.comments = []

variable {left rest mid : List Node} {a : α} {b : β}

theorem takes_pure : Takes (pure a : Reader n α) left a left :=
  fun p hp hc => ⟨p, rfl, hp, hc⟩

theorem Takes.bind {x : Reader n α} {f : α → Reader n β} (hx : Takes x left a mid)
    (hf : Takes (f a) mid b rest) : Takes (x >>= f) left b rest := by
  intro p hp hc
  obtain ⟨p₁, h₁, hp₁, hc₁⟩ := hx p hp hc
  obtain ⟨q, h₂, hq, hqc⟩ := hf p₁ hp₁ hc₁
  exact ⟨q, bind_eq_ok.mpr ⟨a, p₁, h₁, h₂⟩, hq, hqc⟩

theorem Takes.map {x : Reader n α} (f : α → β) (hx : Takes x left a rest) :
    Takes (f <$> x) left (f a) rest := by
  rw [map_eq_pure_bind]
  exact hx.bind takes_pure

/-- The result may be written in another way. -/
theorem Takes.result {x : Reader n α} {a' : α} (hx : Takes x left a rest) (h : a = a') :
    Takes x left a' rest :=
  h ▸ hx

theorem takes_takeComments : Takes (takeComments : Reader n (List String)) left [] left := by
  intro p hp hc
  refine ⟨⟨p.left, p.within, []⟩, ?_, hp, rfl⟩
  show Except.ok (p.comments, _) = _
  rw [hc]

/-! ## Children -/

section

variable {kind : String} {kinds : List String} {c : Node}
  {body : (c : Node) → c ∈ n.children → Reader c α} {x y : Reader n α}

/-- A child is read by the reader of its own children, which takes all of them. -/
theorem takes_inside (h : c.isAmong kinds = true) (hb : ∀ hc, Takes (body c hc) c.children a []) :
    Takes (inside kinds body) (c :: rest) a rest := by
  obtain ⟨hnot, hkind⟩ := Node.isAmong_iff.mp h
  intro p hp hc
  have hskip : Node.skipComments p.left = ([], c :: rest) := by
    rw [hp, Node.skipComments_of_not hnot]
  have hmem : c ∈ n.children := p.within.subset (hp ▸ List.mem_cons_self)
  have hsuffix : rest <:+ n.children := (List.suffix_cons c rest).trans (hp ▸ p.within)
  obtain ⟨q, hq, hleft, hcomments⟩ := hb hmem
    ⟨c.children, List.suffix_refl _, p.comments ++ (Node.skipComments p.left).1⟩ rfl
    (by rw [hc, hskip]; rfl)
  refine ⟨⟨rest, hsuffix, []⟩, ?_, rfl, rfl⟩
  unfold inside
  split
  · rename_i h
    rw [hskip] at h
    cases h
  · rename_i c' rest' h
    obtain ⟨rfl, rfl⟩ : c = c' ∧ rest = rest' := by
      rw [hskip] at h
      exact List.cons.inj h
    simp only [hkind, if_true, hq, hleft, hcomments]
    rfl

theorem takes_peek {next : Option Node} (h : Node.next? left = next) :
    Takes (MonadWalk.peek? : Reader n (Option Node)) left next left := by
  intro p hp hc
  refine ⟨p, ?_, hp, hc⟩
  rw [← h, ← hp]
  rfl

theorem takes_nextKind :
    Takes (MonadWalk.peekKind? : Reader n (Option String)) left (Node.nextKind? left) left :=
  (takes_peek rfl).bind takes_pure

theorem takes_peekKind (kind : String) (h : Node.nextKind? left = some kind) :
    Takes (MonadWalk.peekKind? : Reader n (Option String)) left (some kind) left :=
  takes_nextKind.result h

theorem takes_nextIs {found : Bool} (h : Node.nextHas kinds left = found) :
    Takes (MonadWalk.nextIs kinds : Reader n Bool) left found left := by
  rw [← h]
  exact takes_nextKind.bind takes_pure

/-- A choice by the next child, which is there. -/
theorem takes_if_next (h : Node.nextHas kinds left = true) (hx : Takes x left a rest) :
    Takes (MonadWalk.nextIs kinds >>= fun found => if found = true then x else y) left a rest :=
  (takes_nextIs h).bind hx

/-- A choice by the next child, which is not there. -/
theorem takes_if_not (h : Node.nextHas kinds left = false) (hy : Takes y left a rest) :
    Takes (MonadWalk.nextIs kinds >>= fun found => if found = true then x else y) left a rest :=
  (takes_nextIs h).bind hy

theorem takes_expect (h : c.isToken kinds = true) :
    Takes (MonadWalk.expect kinds : Reader n String) (c :: rest) c.kind rest := by
  obtain ⟨hleaf, hamong⟩ := Node.isToken_iff.mp h
  refine takes_inside hamong fun _ => ?_
  rw [hleaf]
  exact takes_pure

theorem takes_token (h : c.isToken [kind] = true) :
    Takes (token kind : Reader n Unit) (c :: rest) () rest :=
  (takes_expect h).bind takes_pure

theorem takes_tryMatch (h : c.isToken kinds = true) :
    Takes (MonadWalk.tryMatch kinds : Reader n (Option String)) (c :: rest) (some c.kind) rest :=
  takes_if_next (Node.nextHas_of_isAmong (Node.isToken_iff.mp h).2 rest)
    ((takes_expect h).bind takes_pure)

theorem takes_tryMatch_none (h : Node.nextHas kinds left = false) :
    Takes (MonadWalk.tryMatch kinds : Reader n (Option String)) left none left :=
  takes_if_not h takes_pure

theorem takes_tryToken (h : c.isToken [kind] = true) :
    Takes (MonadWalk.tryToken kind : Reader n Bool) (c :: rest) true rest :=
  (takes_tryMatch h).bind takes_pure

theorem takes_tryToken_false (h : Node.nextHas [kind] left = false) :
    Takes (MonadWalk.tryToken kind : Reader n Bool) left false left :=
  (takes_tryMatch_none h).bind takes_pure

/-- A choice by a token, which is there. -/
theorem takes_if_token (h : c.isToken [kind] = true) (hx : Takes x mid a rest) :
    Takes (MonadWalk.tryToken kind >>= fun found => if found = true then x else y) (c :: mid) a
      rest :=
  (takes_tryToken h).bind hx

/-- A choice by a token, which is not there. -/
theorem takes_if_no_token (h : Node.nextHas [kind] left = false) (hy : Takes y left a rest) :
    Takes (MonadWalk.tryToken kind >>= fun found => if found = true then x else y) left a rest :=
  (takes_tryToken_false h).bind hy

theorem takes_name (h : c.isToken ["Identifier"] = true) :
    Takes (MonadWalk.name : Reader n String) (c :: rest) c.text rest := by
  obtain ⟨hnot, hkind⟩ := Node.isAmong_iff.mp (Node.isToken_iff.mp h).2
  have hnext : Node.next? (c :: rest) = some c := by
    simp [Node.next?, Node.skipComments_of_not hnot]
  have hidentifier : c.kind = "Identifier" := by simpa using hkind
  refine (takes_peek hnext).bind ?_
  simp only [hidentifier, if_true]
  exact (takes_expect h).bind takes_pure

end

/-! ## Repeating -/

theorem takes_gather_nil {step : Reader n (Option α)} (h : Takes step left none rest) :
    Takes (gather step) left [] rest := by
  intro p hp hc
  obtain ⟨q, hq, hrest⟩ := h p hp hc
  refine ⟨q, ?_, hrest⟩
  unfold gather
  rw [repeating, hq]

theorem takes_gather_cons {step : Reader n (Option α)} {more : List α}
    (h : Takes step left (some a) mid) (hlt : mid.length < left.length)
    (hmore : Takes (gather step) mid more rest) : Takes (gather step) left (a :: more) rest := by
  intro p hp hc
  obtain ⟨q, hq, hleft, hcomments⟩ := h p hp hc
  obtain ⟨r, hr, hrest⟩ := hmore q hleft hcomments
  refine ⟨r, ?_, hrest⟩
  unfold gather at hr ⊢
  rw [repeating, hq]
  simp only [hleft, hp, hlt, if_true, hr]

section

variable {kind separator : String} {body : (c : Node) → c ∈ n.children → Reader c α}

theorem takes_optional {c : Node} (h : c.isAmong [kind] = true)
    (hb : ∀ hc, Takes (body c hc) c.children a []) :
    Takes (Reader.optional kind body) (c :: rest) (some a) rest :=
  takes_if_next (Node.nextHas_of_isAmong h rest) ((takes_inside h hb).bind takes_pure)

theorem takes_optional_none (h : Node.nextHas [kind] left = false) :
    Takes (Reader.optional kind body) left none left :=
  takes_if_not h takes_pure

/-- Consecutive children of a kind, up to one of another kind. -/
theorem takes_many {items : List γ} {tree : γ → Node} {value : γ → α}
    (h : ∀ x ∈ items, (tree x).isAmong [kind] = true)
    (hb : ∀ x ∈ items, ∀ hc, Takes (body (tree x) hc) (tree x).children (value x) [])
    (hrest : Node.nextHas [kind] rest = false) :
    Takes (many kind body) (items.map tree ++ rest) (items.map value) rest := by
  induction items with
  | nil => exact takes_gather_nil (takes_optional_none hrest)
  | cons x more ih =>
    exact takes_gather_cons (takes_optional (h x List.mem_cons_self) (hb x List.mem_cons_self))
      (by simp) (ih (fun y hy => h y (List.mem_cons_of_mem x hy))
        fun y hy => hb y (List.mem_cons_of_mem x hy))

/-- Consecutive children of a kind, and nothing behind. -/
theorem takes_many_all {items : List γ} {tree : γ → Node} {value : γ → α}
    (h : ∀ x ∈ items, (tree x).isAmong [kind] = true)
    (hb : ∀ x ∈ items, ∀ hc, Takes (body (tree x) hc) (tree x).children (value x) []) :
    Takes (many kind body) (items.map tree) (items.map value) [] := by
  rw [← List.append_nil (items.map tree)]
  exact takes_many h hb rfl

theorem nextKind?_behind (hnot : separator ≠ "line_comment") (items : List γ) (tree : γ → Node)
    (rest : List Node) :
    items.flatMap (fun x => [Phrase.token separator, tree x]) ++ rest = rest ∨
      Node.nextKind? (items.flatMap (fun x => [Phrase.token separator, tree x]) ++ rest) =
        some separator := by
  cases items with
  | nil => exact .inl rfl
  | cons x more =>
    exact .inr (Node.nextKind?_of_kind rfl hnot _)

/-- Items behind one token each, up to something else. An item may look at what follows it. -/
theorem takes_gather_behind {item : Reader n α} {items : List γ} {tree : γ → Node} {value : γ → α}
    (hi : ∀ x ∈ items, ∀ after, after = rest ∨ Node.nextKind? after = some separator →
      Takes item (tree x :: after) (value x) after)
    (hnot : separator ≠ "line_comment") (hrest : Node.nextHas [separator] rest = false) :
    Takes (gather do
        if ← MonadWalk.tryToken separator then
          let a ← item
          return some a
        else
          return none)
      (items.flatMap (fun x => [Phrase.token separator, tree x]) ++ rest) (items.map value) rest := by
  induction items with
  | nil => exact takes_gather_nil (takes_if_no_token hrest takes_pure)
  | cons x more ih =>
    have hafter := nextKind?_behind hnot more tree rest
    rw [List.flatMap_cons, List.append_assoc, List.cons_append, List.singleton_append]
    have htoken : (Phrase.token separator).isToken [separator] = true :=
      Node.isToken_iff.mpr ⟨rfl, Node.isAmong_of_kind rfl hnot⟩
    refine takes_gather_cons (takes_if_token htoken ((hi x List.mem_cons_self _ hafter).bind
      takes_pure)) ?_ (ih fun y hy => hi y (List.mem_cons_of_mem x hy))
    simp only [List.length_cons]
    omega

/-- Items with separators between them, up to something else. -/
theorem takes_separated {item : Reader n α} {items : List γ} {tree : γ → Node} {value : γ → α}
    (hne : items ≠ [])
    (hi : ∀ x ∈ items, ∀ after, after = rest ∨ Node.nextKind? after = some separator →
      Takes item (tree x :: after) (value x) after)
    (hnot : separator ≠ "line_comment") (hrest : Node.nextHas [separator] rest = false) :
    Takes (Reader.separated separator item)
      (Phrase.separated separator (items.map tree) ++ rest) (items.map value) rest := by
  cases items with
  | nil => exact absurd rfl hne
  | cons first more =>
    rw [List.map_cons, Phrase.separated_cons, List.flatMap_map, List.cons_append]
    have hafter := nextKind?_behind hnot more tree rest
    exact (hi first List.mem_cons_self _ hafter).bind (Takes.bind (takes_gather_behind
      (fun y hy => hi y (List.mem_cons_of_mem first hy)) hnot hrest) takes_pure)

/-- Items with separators between them, and nothing behind. -/
theorem takes_separated_all {item : Reader n α} {items : List γ} {tree : γ → Node} {value : γ → α}
    (hne : items ≠ [])
    (hi : ∀ x ∈ items, ∀ after, after = [] ∨ Node.nextKind? after = some separator →
      Takes item (tree x :: after) (value x) after)
    (hnot : separator ≠ "line_comment") :
    Takes (Reader.separated separator item) (Phrase.separated separator (items.map tree))
      (items.map value) [] := by
  rw [← List.append_nil (Phrase.separated separator (items.map tree))]
  exact takes_separated hne hi hnot rfl

end

/-! ## From one run to all -/

theorem left_of_leave {parent : String} (h : Node.leave parent left = .ok []) : left = [] := by
  cases left with
  | nil => rfl
  | cons c rest =>
    unfold Node.leave at h
    rw [Node.skipComments] at h
    by_cases hc : c.isComment = true
    · rw [if_pos hc] at h
      split at h
      · rename_i heq
        cases h
        exact absurd (congrArg Prod.fst heq) (List.cons_ne_nil _ _)
      · cases h
    · rw [if_neg hc] at h
      cases h

/-- A successful run that passes no comment takes the next child and all of its children. -/
theorem inside_eq_ok {kinds : List String} {body : (c : Node) → c ∈ n.children → Reader c α}
    {c : Node} {p q : Place n} (hp : p.left = c :: rest) (hc : p.comments = [])
    (h : inside kinds body p = .ok (a, q)) (hq : q.comments = []) (hnot : c.isComment = false) :
    kinds.contains c.kind = true ∧ q.left = rest ∧
      ∀ hc, Takes (body c hc) c.children a [] := by
  have hskip : Node.skipComments p.left = ([], c :: rest) := by
    rw [hp, Node.skipComments_of_not hnot]
  unfold inside at h
  split at h
  · cases h
  · rename_i c' rest' hs
    obtain ⟨rfl, rfl⟩ : c = c' ∧ rest = rest' := by
      rw [hskip] at hs
      exact List.cons.inj hs
    dsimp only at h
    split at h
    · rename_i hkind
      split at h
      · cases h
      · rename_i b q' hbody
        split at h
        · cases h
        · rename_i texts hleave
          cases h
          obtain ⟨hcomments, rfl⟩ := List.append_eq_nil_iff.mp hq
          refine ⟨hkind, rfl, fun hmem p' hp' hc' => ⟨q', ?_, left_of_leave hleave, hcomments⟩⟩
          rw [← hbody]
          congr 1
          exact Place.ext hp' (by rw [hc', hc, hskip]; rfl)
    · cases h

theorem readTree_eq_ok {tree : Node} {r : Reader (above tree) α} (h : readTree tree r = .ok (a, [])) :
    ∃ q, r ⟨[tree], List.suffix_refl _, []⟩ = .ok (a, q) ∧ q.left = [] ∧ q.comments = [] := by
  unfold readTree at h
  split at h
  · cases h
  · rename_i a' q hr
    split at h
    · cases h
    · rename_i texts hleave
      simp only [Except.ok.injEq, Prod.mk.injEq, List.append_eq_nil_iff] at h
      obtain ⟨rfl, hcomments, rfl⟩ := h
      exact ⟨q, hr, left_of_leave hleave, hcomments⟩

/-- What is read inside a tree that stands alone is read inside of it everywhere. -/
theorem takes_of_readTree {tree : Node} {kinds : List String} {body : (c : Node) → Reader c α}
    (h : readTree tree (inside kinds fun c _ => body c) = .ok (a, [])) :
    tree.isAmong kinds = true ∧ Takes (body tree) tree.children a [] := by
  obtain ⟨q, hq, -, hcomments⟩ := readTree_eq_ok h
  have hnot : tree.isComment = false := by
    -- Behind a comment that stands alone there is nothing to read.
    by_contra hc
    have hskip : (Node.skipComments [tree]).2 = [] := by
      rw [Node.skipComments, if_pos (by simpa using hc)]
      rfl
    unfold inside at hq
    split at hq
    · cases hq
    · rename_i hs
      rw [hskip] at hs
      cases hs
  obtain ⟨hkind, -, htakes⟩ := inside_eq_ok rfl rfl hq hcomments hnot
  exact ⟨Node.isAmong_iff.mpr ⟨hnot, hkind⟩, htakes List.mem_cons_self⟩

theorem readTree_of_takes {tree : Node} {r : Reader (above tree) α} (h : Takes r [tree] a []) :
    readTree tree r = .ok (a, []) := by
  obtain ⟨q, hq, hleft, hcomments⟩ := h ⟨[tree], List.suffix_refl _, []⟩ rfl rfl
  rw [readTree, hq]
  simp only [hleft, hcomments]
  rfl

end Reader

end Rubify
