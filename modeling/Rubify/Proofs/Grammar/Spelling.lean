import Rubify.Proofs.Grammar.Blind

/-!
# The tokens of an expression

`Node.Spells x tokens` says that the children of `x` are read as these tokens, all of them. The
reading is blind, so a node spells one list of tokens at most, wherever it stands.

`Spelling` says the same child by child, as far as it is needed to find tokens again: comments and
type arguments spell nothing, a leaf spells its text, a node what its children spell, and several
siblings can be put together to one operator.

* **`Node.Spells.splitAt`**: what a child spells stands in what its parent spells, between what is
  spelled in front of it and behind it.
* **`Node.Passes.exists_append`**: around an argument of a call there are further tokens.
-/

namespace Rubify

variable {n : Node} {α β : Type}

namespace Grammar

open MonadWalk Reader Syntax

/-! ## What a node spells -/

/-- One round of reading tokens. -/
def tokenStep (n : Node) : Reader n (Option (List String)) := do
  match ← peek? with
  | none => return none
  | some next =>
    if next.kind = "typeArguments" then
      let _ ← inside [next.kind] fun c _ => tokensIn c
      return some []
    else if !next.isLeaf then
      let tokens ← inside [next.kind] fun c _ => tokensIn c
      return some tokens
    else
      match operators? next.kind with
      | some options => return some (← multiMatch options).toList
      | none => return some [← expectText [next.kind]]

theorem tokensIn_eq (n : Node) :
    tokensIn n = (do let parts ← gather (tokenStep n); return parts.flatten) := by
  rw [tokensIn]
  rfl

end Grammar

/-- The children of the node are read as these tokens, all of them. -/
def Node.Spells (x : Node) (tokens : List String) : Prop :=
  ∃ q, Grammar.tokensIn x ⟨x.children, x.children_suffix, []⟩ = .ok (tokens, q) ∧
    ∀ c ∈ q.left, c.isComment = true

namespace Node

variable {x : Node} {tokens : List String}

theorem spells_of_tokensIn {p q : Place x} (hp : p.left = x.children)
    (h : Grammar.tokensIn x p = .ok (tokens, q)) (hq : ∀ c ∈ q.left, c.isComment = true) :
    x.Spells tokens := by
  rcases Grammar.blind_tokensIn x p ⟨x.children, x.children_suffix, []⟩ hp with
    ⟨e, hp', -⟩ | ⟨ts, p', q', hp', hq', hleft⟩
  · rw [h] at hp'
    cases hp'
  · rw [h] at hp'
    cases hp'
    exact ⟨q', hq', hleft ▸ hq⟩

/-- The tokens that the node spells, if it does. -/
def tokens? (x : Node) : Option (List String) :=
  match Grammar.tokensIn x ⟨x.children, x.children_suffix, []⟩ with
  | .ok (tokens, q) => if q.left.all isComment then some tokens else none
  | .error _ => none

theorem spells_iff : x.Spells tokens ↔ x.tokens? = some tokens := by
  rw [Spells, tokens?]
  cases Grammar.tokensIn x ⟨x.children, x.children_suffix, []⟩ with
  | error e => simp
  | ok r => simp [Prod.ext_iff, and_comm]

instance : Decidable (x.Spells tokens) := decidable_of_iff _ spells_iff.symm

/-- The tokens of a node are read from it wherever it stands. -/
theorem Spells.tokensIn (hx : x.Spells tokens) {p : Place x} (hp : p.left = x.children) :
    ∃ q, Grammar.tokensIn x p = .ok (tokens, q) ∧ ∀ c ∈ q.left, c.isComment = true := by
  obtain ⟨q, h, hq⟩ := hx
  rcases Grammar.blind_tokensIn x p ⟨x.children, x.children_suffix, []⟩ hp with
    ⟨e, -, h'⟩ | ⟨ts, p', q', hp', hq', hleft⟩
  · rw [h] at h'
    cases h'
  · rw [h] at hq'
    cases hq'
    exact ⟨p', hp', hleft ▸ hq⟩

theorem Spells.unique {others : List String} (hx : x.Spells tokens) (ho : x.Spells others) :
    tokens = others := by
  obtain ⟨q, h, -⟩ := hx
  obtain ⟨q', h', -⟩ := ho
  rw [h] at h'
  cases h'
  rfl

/-- A node that is taken as part of an operator. -/
def IsOperator (d : Node) : Prop :=
  d.kind ∈ ["<", ">", "="] ∧ ∀ e ∈ d.children, e.isComment = true

/-- How siblings spell tokens. -/
inductive Spelling : List Node → List String → Prop
  | nil : Spelling [] []
  | comment {c : Node} {l : List Node} {ts : List String} :
      c.isComment = true → Spelling l ts → Spelling (c :: l) ts
  | dropped {c : Node} {l : List Node} {ts : List String} :
      c.kind = "typeArguments" → Spelling l ts → Spelling (c :: l) ts
  | nested {c : Node} {l : List Node} {inner ts : List String} :
      c.isLeaf = false → c.Spells inner → Spelling l ts → Spelling (c :: l) (inner ++ ts)
  | leaf {c : Node} {l : List Node} {ts : List String} :
      c.isLeaf = true → Spelling l ts → Spelling (c :: l) (c.text :: ts)
  | operator {taken l : List Node} {part ts : List String} :
      (∀ d ∈ taken, d.isComment = true ∨ d.IsOperator) → Spelling l ts →
        Spelling (taken ++ l) (part ++ ts)

theorem spelling_of_comments {l : List Node} (h : ∀ c ∈ l, c.isComment = true) : Spelling l [] := by
  induction l with
  | nil => exact .nil
  | cons c l ih =>
    rw [List.forall_mem_cons] at h
    exact .comment h.1 (ih h.2)

theorem spelling_of_skipComments {l : List Node} (h : Spelling (skipComments l).2 tokens) :
    Spelling l tokens := by
  induction l with
  | nil => exact h
  | cons c l ih =>
    rw [skipComments] at h
    by_cases hc : c.isComment = true
    · rw [if_pos hc] at h
      exact .comment hc (ih h)
    · rwa [if_neg hc] at h

end Node

/-- The nodes in front of the next one are comments. -/
theorem Node.exists_skipComments (l : List Node) :
    ∃ front, l = front ++ (Node.skipComments l).2 ∧ ∀ c ∈ front, c.isComment = true := by
  induction l with
  | nil => exact ⟨[], rfl, fun _ h => absurd h List.not_mem_nil⟩
  | cons c l ih =>
    rw [Node.skipComments]
    by_cases hc : c.isComment = true
    · obtain ⟨front, hl, hfront⟩ := ih
      rw [if_pos hc]
      exact ⟨c :: front, congrArg (c :: ·) hl, List.forall_mem_cons.mpr ⟨hc, hfront⟩⟩
    · rw [if_neg hc]
      exact ⟨[], rfl, fun _ h => absurd h List.not_mem_nil⟩

namespace Reader

variable {p q : Place n}

/-- The nodes between two places are comments and parts of operators. -/
def TakesOperators (p q : Place n) : Prop :=
  ∃ taken, p.left = taken ++ q.left ∧ ∀ d ∈ taken, d.isComment = true ∨ d.IsOperator

theorem TakesOperators.refl (p : Place n) : TakesOperators p p :=
  ⟨[], rfl, fun _ h => absurd h List.not_mem_nil⟩

theorem TakesOperators.trans {r : Place n} (h : TakesOperators p q) (h' : TakesOperators q r) :
    TakesOperators p r := by
  obtain ⟨taken, hp, htaken⟩ := h
  obtain ⟨taken', hq, htaken'⟩ := h'
  refine ⟨taken ++ taken', ?_, List.forall_mem_append.mpr ⟨htaken, htaken'⟩⟩
  rw [hp, hq, List.append_assoc]

theorem takesOperators_expect {kinds : List String} {kind : String}
    (hk : ∀ kind ∈ kinds, kind ∈ ["<", ">", "="])
    (h : (MonadWalk.expect kinds : Reader n String) p = .ok (kind, q)) : TakesOperators p q := by
  obtain ⟨c, rest, hc, q₁, hs, hkind, hb, hq₁, hq⟩ := exists_of_inside h
  cases hb
  obtain ⟨front, hp, hfront⟩ := Node.exists_skipComments p.left
  refine ⟨front ++ [c], ?_, List.forall_mem_append.mpr ⟨fun d hd => Or.inl (hfront d hd), ?_⟩⟩
  · rw [hp, hs, hq, List.append_assoc]
    rfl
  · rw [List.forall_mem_singleton]
    exact Or.inr ⟨hk c.kind (List.contains_iff_mem.mp hkind), hq₁⟩

theorem takesOperators_tryMatch {kinds : List String} {kind : Option String}
    (hk : ∀ kind ∈ kinds, kind ∈ ["<", ">", "="])
    (h : (MonadWalk.tryMatch kinds : Reader n (Option String)) p = .ok (kind, q)) :
    TakesOperators p q := by
  obtain ⟨next, p₁, hnext, h⟩ := bind_eq_ok.mp h
  cases hnext
  split at h
  · obtain ⟨kind, p₂, hexpect, h⟩ := bind_eq_ok.mp h
    cases h
    exact takesOperators_expect hk hexpect
  · cases h
    exact .refl p

theorem takesOperators_multiMatchFrom (options : List (List String)) (taken : Option String)
    (ho : ∀ option ∈ options, ∀ token ∈ option, token ∈ ["<", ">", "="]) {text : Option String}
    {p q : Place n}
    (h : (MonadWalk.multiMatchFrom options taken : Reader n (Option String)) p = .ok (text, q)) :
    TakesOperators p q := by
  rw [MonadWalk.multiMatchFrom] at h
  by_cases hne : options.filterMap List.head? = []
  · rw [dif_pos hne] at h
    cases h
    exact .refl p
  rw [dif_neg hne] at h
  dsimp only at h
  have hwanted : ∀ token ∈ options.filterMap List.head?, token ∈ ["<", ">", "="] := by
    intro token htoken
    obtain ⟨option, hoption, hhead⟩ := List.mem_filterMap.mp htoken
    exact ho option hoption token (List.mem_of_mem_head? hhead)
  have hcontinuing (token : String) : ∀ option ∈ MonadWalk.continuing token options,
      ∀ next ∈ option, next ∈ ["<", ">", "="] := by
    intro option hoption next hnext
    obtain ⟨whole, hwhole, hrest⟩ := List.mem_filterMap.mp hoption
    cases whole with
    | nil => cases hrest
    | cons first rest =>
      dsimp only at hrest
      split at hrest
      · cases hrest
        exact ho _ hwhole next (List.mem_cons_of_mem first hnext)
      · cases hrest
  have hnext {token : String} {p₁ : Place n}
      (h : (MonadWalk.multiMatchFrom (MonadWalk.continuing token options)
        (some (taken.getD "" ++ token)) : Reader n (Option String)) p₁ = .ok (text, q)) :
      TakesOperators p₁ q :=
    takesOperators_multiMatchFrom _ _ (hcontinuing token) h
  split at h
  · obtain ⟨token?, p₁, hexpect, h⟩ := bind_eq_ok.mp h
    rw [map_eq_pure_bind] at hexpect
    obtain ⟨token, p₂, hexpect, hpure⟩ := bind_eq_ok.mp hexpect
    cases hpure
    exact (takesOperators_expect hwanted hexpect).trans (hnext h)
  · obtain ⟨token?, p₁, htry, h⟩ := bind_eq_ok.mp h
    refine (takesOperators_tryMatch hwanted htry).trans ?_
    cases token? with
    | none =>
      cases h
      exact .refl _
    | some token => exact hnext h
termination_by MonadWalk.tokenTotal options
decreasing_by exact MonadWalk.tokenTotal_continuing_lt token hne

end Reader

namespace Node

open Grammar Reader MonadWalk

variable {x : Node}

theorem mem_operators {kind : String} {options : List (List String)}
    (h : operators? kind = some options) :
    ∀ option ∈ options, ∀ token ∈ option, token ∈ ["<", ">", "="] := by
  unfold operators? at h
  split at h
  · cases h
    decide
  · split at h
    · cases h
      decide
    · cases h

/-- A round that reads tokens adds to the spelling of what is left. -/
theorem spelling_of_tokenStep {p q : Place x} {part ts : List String}
    (h : tokenStep x p = .ok (some part, q)) (hq : Spelling q.left ts) :
    Spelling p.left (part ++ ts) := by
  obtain ⟨next, p₁, hpeek, h⟩ := bind_eq_ok.mp h
  cases hpeek
  cases hs : (skipComments p.left).2 with
  | nil =>
    rw [next?, hs] at h
    cases h
  | cons c rest =>
    rw [next?, hs] at h
    have hchild {tokens : List String} {q₁ : Place x}
        (h : (inside [c.kind] fun c _ => tokensIn c : Reader x _) p = .ok (tokens, q₁)) :
        (skipComments p.left).2 = c :: q₁.left ∧ c.Spells tokens := by
      obtain ⟨c', rest', hc, q₂, hs', -, hb, hq₂, hleft⟩ := exists_of_inside h
      rw [hs] at hs'
      cases hs'
      exact ⟨by rw [hs, hleft], spells_of_tokensIn rfl hb hq₂⟩
    dsimp only [List.head?_cons] at h
    split at h
    · rename_i hkind
      obtain ⟨tokens, q₁, hin, h⟩ := bind_eq_ok.mp h
      cases h
      exact spelling_of_skipComments ((hchild hin).1 ▸ .dropped hkind hq)
    · split at h
      · rename_i hleaf
        obtain ⟨tokens, q₁, hin, h⟩ := bind_eq_ok.mp h
        cases h
        refine spelling_of_skipComments ((hchild hin).1 ▸ .nested ?_ (hchild hin).2 hq)
        simpa using hleaf
      · rename_i hleaf
        cases hoptions : operators? c.kind with
        | some options =>
          rw [hoptions] at h
          obtain ⟨text, q₁, hmulti, h⟩ := bind_eq_ok.mp h
          cases h
          obtain ⟨taken, hp, htaken⟩ :=
            takesOperators_multiMatchFrom options none (mem_operators hoptions) hmulti
          rw [hp]
          exact .operator htaken hq
        | none =>
          rw [hoptions] at h
          obtain ⟨text, q₁, htext, h⟩ := bind_eq_ok.mp h
          cases h
          obtain ⟨next, p₂, hpeek, htext⟩ := bind_eq_ok.mp htext
          cases hpeek
          obtain ⟨kind, q₂, hexpect, htext⟩ := bind_eq_ok.mp htext
          cases htext
          obtain ⟨c', rest', hc, q₃, hs', -, -, -, hleft⟩ := exists_of_inside hexpect
          rw [hs] at hs'
          cases hs'
          rw [next?, hs]
          refine spelling_of_skipComments ?_
          rw [hs, ← hleft]
          exact .leaf (by simpa using hleaf) hq

/-- The round that ends the reading has found no further node. -/
theorem eq_of_tokenStep_none {p q : Place x} (h : tokenStep x p = .ok (none, q)) : q = p := by
  obtain ⟨next, p₁, hpeek, h⟩ := bind_eq_ok.mp h
  cases hpeek
  cases hnext : next? p.left with
  | none =>
    rw [hnext] at h
    cases h
    rfl
  | some c =>
    rw [hnext] at h
    dsimp only at h
    split at h
    · obtain ⟨_, _, -, h⟩ := bind_eq_ok.mp h
      cases h
    · split at h
      · obtain ⟨_, _, -, h⟩ := bind_eq_ok.mp h
        cases h
      · cases hoptions : operators? c.kind with
        | some options =>
          rw [hoptions] at h
          obtain ⟨_, _, -, h⟩ := bind_eq_ok.mp h
          cases h
        | none =>
          rw [hoptions] at h
          obtain ⟨_, _, -, h⟩ := bind_eq_ok.mp h
          cases h

theorem spelling_of_repeating {p q : Place x} {parts : List (List String)}
    (h : repeating (tokenStep x) p = .ok (parts, q)) (hq : ∀ c ∈ q.left, c.isComment = true) :
    Spelling p.left parts.flatten := by
  rw [repeating] at h
  split at h
  · cases h
  · rename_i p₁ hstep
    cases h
    rw [← eq_of_tokenStep_none hstep]
    exact spelling_of_comments hq
  · rename_i part p₁ hstep
    split at h
    · rename_i hlt
      split at h
      · cases h
      · rename_i more r hmore
        cases h
        exact spelling_of_tokenStep hstep (spelling_of_repeating hmore hq)
    · cases h
      exact spelling_of_tokenStep hstep (spelling_of_comments hq)
termination_by p.left.length

/-- **The tokens of a node are spelled by its children.** -/
theorem Spells.spelling {tokens : List String} (h : x.Spells tokens) :
    Spelling x.children tokens := by
  obtain ⟨q, h, hq⟩ := h
  rw [tokensIn_eq] at h
  obtain ⟨parts, p₁, hparts, h⟩ := bind_eq_ok.mp h
  cases h
  exact spelling_of_repeating hparts hq

/-! ## What a child spells -/

/-- A child that is read node by node: it holds more than comments, and is no type argument. -/
structure Solid (c : Node) : Prop where
  notComment : c.isComment = false
  notDropped : c.kind ≠ "typeArguments"
  holds : ∃ d ∈ c.children, d.isComment = false

/-- A leaf that is a token of its own. -/
structure Plain (o : Node) : Prop where
  isLeaf : o.isLeaf = true
  notComment : o.isComment = false
  notDropped : o.kind ≠ "typeArguments"
  notOperator : o.kind ∉ ["<", ">", "="]

theorem Solid.isLeaf {c : Node} (h : c.Solid) : c.isLeaf = false := by
  obtain ⟨d, hd, -⟩ := h.holds
  rw [Node.isLeaf, List.isEmpty_eq_false_iff]
  exact List.ne_nil_of_mem hd

theorem Solid.not_taken {c : Node} (h : c.Solid) : ¬ (c.isComment = true ∨ c.IsOperator) := by
  rintro (hc | ho)
  · exact Bool.false_ne_true (h.notComment.symm.trans hc)
  · obtain ⟨d, hd, hnot⟩ := h.holds
    exact Bool.false_ne_true (hnot.symm.trans (ho.2 d hd))

theorem Plain.not_taken {o : Node} (h : o.Plain) : ¬ (o.isComment = true ∨ o.IsOperator) := by
  rintro (hc | ho)
  · exact Bool.false_ne_true (h.notComment.symm.trans hc)
  · exact h.notOperator ho.1

/-- A token of its own is spelled. -/
theorem Spelling.ne_nil {l : List Node} {ts : List String} (h : Spelling l ts) {o : Node}
    (ho : o.Plain) : o ∈ l → ts ≠ [] := by
  induction h with
  | nil => exact fun hmem => absurd hmem List.not_mem_nil
  | comment hc _ ih =>
    intro hmem
    rcases List.mem_cons.mp hmem with rfl | hmem
    · exact absurd (Or.inl hc) ho.not_taken
    · exact ih hmem
  | dropped hk _ ih =>
    intro hmem
    rcases List.mem_cons.mp hmem with rfl | hmem
    · exact absurd hk ho.notDropped
    · exact ih hmem
  | nested hleaf _ _ ih =>
    intro hmem
    rcases List.mem_cons.mp hmem with rfl | hmem
    · exact absurd (hleaf.symm.trans ho.isLeaf) Bool.false_ne_true
    · exact List.append_ne_nil_of_right_ne_nil _ (ih hmem)
  | leaf _ _ _ => exact fun _ => List.cons_ne_nil _ _
  | operator htaken _ ih =>
    intro hmem
    rcases List.mem_append.mp hmem with hmem | hmem
    · exact absurd (htaken o hmem) ho.not_taken
    · exact List.append_ne_nil_of_right_ne_nil _ (ih hmem)

/-- What the child `c` spells stands in the tokens, behind those of the siblings in front of it and
in front of those of the siblings behind it. -/
def SplitAt (before behind : List Node) (c : Node) (ts : List String) : Prop :=
  ∃ pre inner post, ts = pre ++ inner ++ post ∧ c.Spells inner ∧
    (∀ o ∈ before, o.Plain → pre ≠ []) ∧ ∀ o ∈ behind, o.Plain → post ≠ []

theorem SplitAt.push {before behind : List Node} {c : Node} {ts : List String}
    (h : SplitAt before behind c ts) (front : List Node) (part : List String)
    (hfront : ∀ o ∈ front, o.Plain → part ≠ []) :
    SplitAt (front ++ before) behind c (part ++ ts) := by
  obtain ⟨pre, inner, post, rfl, hc, hpre, hpost⟩ := h
  refine ⟨part ++ pre, inner, post, by simp, hc, ?_, hpost⟩
  intro o ho hplain
  rcases List.mem_append.mp ho with ho | ho
  · exact List.append_ne_nil_of_left_ne_nil (hfront o ho hplain) _
  · exact List.append_ne_nil_of_right_ne_nil _ (hpre o ho hplain)

theorem Spelling.splitAt {l : List Node} {ts : List String} (h : Spelling l ts) {c : Node}
    (hc : c.Solid) {behind : List Node} :
    ∀ {before : List Node}, l = before ++ c :: behind → SplitAt before behind c ts := by
  induction h with
  | nil => exact fun heq => absurd heq.symm (List.append_ne_nil_of_right_ne_nil _ (by simp))
  | @comment d l ts hd hl ih =>
    rintro (_ | ⟨_, before⟩) heq
    · cases heq
      exact absurd (Or.inl hd) hc.not_taken
    · cases heq
      exact (ih rfl).push [d] [] fun o ho hplain =>
        absurd (Or.inl (List.mem_singleton.mp ho ▸ hd)) hplain.not_taken
  | @dropped d l ts hd hl ih =>
    rintro (_ | ⟨_, before⟩) heq
    · cases heq
      exact absurd hd hc.notDropped
    · cases heq
      exact (ih rfl).push [d] [] fun o ho hplain =>
        absurd (List.mem_singleton.mp ho ▸ hd) hplain.notDropped
  | @nested d l inner ts hd hs hl ih =>
    rintro (_ | ⟨_, before⟩) heq
    · cases heq
      exact ⟨[], inner, ts, rfl, hs, fun o ho => absurd ho List.not_mem_nil,
        fun o ho hplain => hl.ne_nil hplain ho⟩
    · cases heq
      refine (ih rfl).push [d] inner fun o ho hplain => ?_
      rw [List.mem_singleton.mp ho] at hplain
      exact absurd (hd.symm.trans hplain.isLeaf) Bool.false_ne_true
  | @leaf d l ts hd hl ih =>
    rintro (_ | ⟨_, before⟩) heq
    · cases heq
      exact absurd (hc.isLeaf.symm.trans hd) Bool.false_ne_true
    · cases heq
      exact (ih rfl).push [d] [d.text] fun _ _ _ => List.cons_ne_nil _ _
  | @operator taken l part ts htaken hl ih =>
    intro before heq
    have hplain : ∀ o ∈ taken, o.Plain → part ≠ [] := fun o ho hplain =>
      absurd (htaken o ho) hplain.not_taken
    rcases List.append_eq_append_iff.mp heq with ⟨front, rfl, hrest⟩ | ⟨tail, rfl, hrest⟩
    · exact (ih hrest).push taken part hplain
    · cases tail with
      | nil =>
        have := SplitAt.push (@ih [] hrest.symm) (before ++ []) part hplain
        rwa [List.append_nil, List.append_nil] at this
      | cons d tail =>
        cases hrest
        exact absurd (htaken c (by simp)) hc.not_taken

/-- **What a child spells stands in what its parent spells**, between what is spelled in front of it
and behind it. -/
theorem Spells.splitAt {ts : List String} (h : x.Spells ts) {c : Node} (hc : c.Solid)
    {before behind : List Node} (hx : x.children = before ++ c :: behind) :
    SplitAt before behind c ts :=
  h.spelling.splitAt hc hx

/-- A node that spells a token is more than comments. -/
theorem Spells.exists_child {ts : List String} (h : x.Spells ts) (hne : ts ≠ []) :
    ∃ d ∈ x.children, d.isComment = false := by
  by_contra hnone
  have hall : ∀ d ∈ x.children, d.isComment = true := by simpa using hnone
  obtain ⟨q, h, -⟩ := h
  rw [tokensIn_eq] at h
  obtain ⟨parts, p₁, hparts, h⟩ := bind_eq_ok.mp h
  cases h
  have hstep : tokenStep x ⟨x.children, x.children_suffix, []⟩ =
      .ok (none, ⟨x.children, x.children_suffix, []⟩) := by
    refine bind_eq_ok.mpr ⟨none, _, ?_, rfl⟩
    obtain ⟨texts, hleave⟩ : ∃ texts, leave x.kind x.children = .ok texts :=
      leave_eq_ok_iff.mpr hall
    have hnext : next? x.children = none := by
      rw [next?, skipComments_of_leave hleave]
      rfl
    rw [← hnext]
    rfl
  unfold gather at hparts
  rw [repeating, hstep] at hparts
  cases hparts
  exact hne rfl

/-! ## Call arguments -/

/-- `y` stands below `x`, outside comments and type arguments. -/
inductive Below (y : Node) : Node → Prop
  | child {x : Node} : y ∈ x.children → Below y x
  | deeper {x c : Node} : c ∈ x.children → c.isComment = false → c.kind ≠ "typeArguments" →
      Below y c → Below y x

/-- `y` is an entry of the argument list of a call inside `x`. -/
def Passes (x y : Node) : Prop :=
  ∃ call list before behind, Below call x ∧ call.kind = "arguments" ∧
    call.children = before ++ list :: behind ∧
    (∃ o ∈ before, o.kind = "(" ∧ o.isLeaf = true) ∧
    (∃ o ∈ behind, o.kind = ")" ∧ o.isLeaf = true) ∧
    list.kind = "expressionList" ∧ y ∈ list.children ∧ y.kind = "expression"

theorem Below.exists_child {y c : Node} (h : Below y c) (hy : y.isComment = false) :
    ∃ d ∈ c.children, d.isComment = false := by
  cases h with
  | child hmem => exact ⟨y, hmem, hy⟩
  | deeper hmem hd => exact ⟨_, hmem, hd⟩

theorem Spells.infix_of_below {y : Node} (hy : y.Solid) {ts : List String} (hx : x.Spells ts)
    (h : Below y x) : ∃ inner, y.Spells inner ∧ inner <:+: ts := by
  induction h generalizing ts with
  | child hmem =>
    obtain ⟨before, behind, hchildren⟩ := List.append_of_mem hmem
    obtain ⟨pre, inner, post, rfl, hinner, -⟩ := hx.splitAt hy hchildren
    exact ⟨inner, hinner, pre, post, rfl⟩
  | @deeper x c hmem hc hkind hbelow ih =>
    obtain ⟨before, behind, hchildren⟩ := List.append_of_mem hmem
    obtain ⟨pre, middle, post, rfl, hmiddle, -⟩ :=
      hx.splitAt ⟨hc, hkind, hbelow.exists_child hy.notComment⟩ hchildren
    obtain ⟨inner, hinner, hinfix⟩ := ih hmiddle
    exact ⟨inner, hinner, hinfix.trans ⟨pre, post, rfl⟩⟩

/-- **What an argument of a call spells stands inside what the expression around spells**: there is
a token in front of it and one behind it. -/
theorem Passes.exists_append {x y : Node} (h : x.Passes y) {ts ys : List String} (hx : x.Spells ts)
    (hy : y.Spells ys) (hne : ys ≠ []) :
    ∃ pre post, ts = pre ++ ys ++ post ∧ pre ≠ [] ∧ post ≠ [] := by
  obtain ⟨call, list, before, behind, hbelow, hcall, hchildren, ⟨o, ho, hopen, holeaf⟩,
    ⟨c, hc, hclose, hcleaf⟩, hlist, hmem, hkind⟩ := h
  have solid {z : Node} {kind : String} (hz : z.kind = kind) (hnot : kind ≠ "line_comment")
      (hdropped : kind ≠ "typeArguments") (hholds : ∃ d ∈ z.children, d.isComment = false) :
      z.Solid := ⟨by simp [isComment, hz, hnot], hz ▸ hdropped, hholds⟩
  have plain {z : Node} {kind : String} (hz : z.kind = kind) (hleaf : z.isLeaf = true)
      (hnot : kind ≠ "line_comment") (hdropped : kind ≠ "typeArguments")
      (hoperator : kind ∉ ["<", ">", "="]) : z.Plain :=
    ⟨hleaf, by simp [isComment, hz, hnot], hz ▸ hdropped, hz ▸ hoperator⟩
  have sy : y.Solid := solid hkind (by decide) (by decide) (hy.exists_child hne)
  have slist : list.Solid := solid hlist (by decide) (by decide) ⟨y, hmem, sy.notComment⟩
  have scall : call.Solid :=
    solid hcall (by decide) (by decide) ⟨list, by simp [hchildren], slist.notComment⟩
  obtain ⟨cs, hcs, first, last, rfl⟩ := hx.infix_of_below scall hbelow
  obtain ⟨pre, ls, post, rfl, hls, hpre, hpost⟩ := hcs.splitAt slist hchildren
  obtain ⟨ys', hys, front, rear, rfl⟩ := hls.infix_of_below sy (.child hmem)
  cases hy.unique hys
  refine ⟨first ++ pre ++ front, rear ++ post ++ last, by simp, ?_, ?_⟩
  · have := hpre o ho (plain hopen holeaf (by decide) (by decide) (by decide))
    simp [this]
  · have := hpost c hc (plain hclose hcleaf (by decide) (by decide) (by decide))
    simp [this]

end Node

end Rubify
