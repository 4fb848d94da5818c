import Rubify.Program.Declare
import Rubify.Proofs.Grammar.Increments
import Rubify.Proofs.Grammar.Tracking

/-!
# Expressions fail on increments only

`Node.leafTexts` says which tokens an expression has, by recursion on the tree: the texts of the leaves
in order, without those of type arguments, and with an operator of several siblings as one token. As long
as the nodes that operators are put together from have no children, these tokens are what is read from a
tree of any shape, so all that can go wrong is what the tokens spell.

Tokens are refused iff there is an increment among them and they are not one increment of a path, in
front of it or behind it. The paths are a grammar (`IsPath`); the scan that recognises them counts open
brackets.

Headline:
* **`expression_text_iff`**: an expression is taken as a whole, and written unless it holds an increment
  inside of something else.
-/

namespace Rubify

/-! ## Paths -/

namespace Syntax

/-- Tokens whose brackets pair up. -/
inductive Paired : List String → Prop
  | nil : Paired []
  | token {t : String} {rest : List String} :
      t ≠ "[" → t ≠ "]" → Paired rest → Paired (t :: rest)
  | brackets {inner rest : List String} :
      Paired inner → Paired rest → Paired ("[" :: (inner ++ "]" :: rest))

/-- What can stand behind the first name of a path: names behind dots, and anything in brackets. -/
inductive PathRest : List String → Prop
  | nil : PathRest []
  | field {name : String} {rest : List String} :
      Text.isName name = true → PathRest rest → PathRest ("." :: name :: rest)
  | index {inner rest : List String} :
      Paired inner → PathRest rest → PathRest ("[" :: (inner ++ "]" :: rest))

/-- A path of names and indices. -/
def IsPath (tokens : List String) : Prop :=
  ∃ name rest, tokens = name :: rest ∧ Text.isName name = true ∧ PathRest rest

/-- There is an increment or decrement among the tokens. -/
def HoldsStep (tokens : List String) : Prop :=
  ∃ token ∈ tokens, isStep token = true

/-- The tokens are one increment or decrement in front of a path or behind it. -/
def IsWholeStep (tokens : List String) : Prop :=
  ∃ op target, isStep op = true ∧ IsPath target ∧ ¬ HoldsStep target ∧
    (tokens = op :: target ∨ tokens = target ++ [op])

theorem not_holdsStep_iff {tokens : List String} :
    ¬ HoldsStep tokens ↔ ∀ token ∈ tokens, isStep token = false := by
  simp [HoldsStep]

theorem not_holdsStep_cons {token : String} {tokens : List String} :
    ¬ HoldsStep (token :: tokens) ↔ isStep token = false ∧ ¬ HoldsStep tokens := by
  simp only [not_holdsStep_iff, List.forall_mem_cons]

theorem not_holdsStep_append {tokens more : List String} :
    ¬ HoldsStep (tokens ++ more) ↔ ¬ HoldsStep tokens ∧ ¬ HoldsStep more := by
  simp only [not_holdsStep_iff, List.forall_mem_append]

/-- Where brackets are open, the scan comes to the one that closes the innermost. -/
theorem exists_of_scanPath_open {tokens : List String} {depth : Nat}
    (h : scanPath false (depth + 1) tokens = true) :
    ∃ inner rest, tokens = inner ++ "]" :: rest ∧ Paired inner ∧ ¬ HoldsStep inner ∧
      scanPath false depth rest = true := by
  induction hlength : tokens.length using Nat.strongRecOn generalizing tokens depth with
  | _ length ih =>
    cases tokens with
    | nil => cases h
    | cons token rest =>
      rw [List.length_cons] at hlength
      rw [scanPath, if_pos (Nat.succ_pos depth)] at h
      by_cases hstep : isStep token = true
      · rw [if_pos hstep] at h
        cases h
      rw [if_neg hstep] at h
      rw [Bool.not_eq_true] at hstep
      by_cases hopen : token = "["
      · -- what the inner bracket closes comes first, then what closes this one
        subst hopen
        rw [if_pos rfl] at h
        obtain ⟨inner, rest, rfl, hinner, hnot, h⟩ := ih _ (by omega) h rfl
        simp only [List.length_append, List.length_cons] at hlength
        obtain ⟨more, rest, rfl, hmore, hnot', h⟩ := ih _ (by omega) h rfl
        refine ⟨"[" :: (inner ++ "]" :: more), rest, by simp, .brackets hinner hmore, ?_, h⟩
        rw [not_holdsStep_cons, not_holdsStep_append, not_holdsStep_cons]
        exact ⟨hstep, hnot, rfl, hnot'⟩
      rw [if_neg hopen] at h
      by_cases hclose : token = "]"
      · subst hclose
        rw [if_pos rfl] at h
        exact ⟨[], rest, rfl, .nil, by simp [HoldsStep], h⟩
      · rw [if_neg hclose] at h
        obtain ⟨inner, rest, rfl, hinner, hnot, h⟩ := ih _ (by omega) h rfl
        exact ⟨token :: inner, rest, rfl, .token hopen hclose hinner,
          not_holdsStep_cons.mpr ⟨hstep, hnot⟩, h⟩

/-- Paired tokens and the bracket behind them close one bracket. -/
theorem scanPath_paired {inner rest : List String} {depth : Nat} (hinner : Paired inner)
    (hnot : ¬ HoldsStep inner) :
    scanPath false (depth + 1) (inner ++ "]" :: rest) = scanPath false depth rest := by
  induction hinner generalizing depth rest with
  | nil => rfl
  | token hopen hclose _ ih =>
    obtain ⟨htoken, hnot⟩ := not_holdsStep_cons.mp hnot
    rw [List.cons_append, scanPath, if_pos (Nat.succ_pos depth), htoken, if_neg Bool.false_ne_true,
      if_neg hopen, if_neg hclose, ih hnot]
  | @brackets inner more _ _ ihinner ihmore =>
    rw [not_holdsStep_cons, not_holdsStep_append, not_holdsStep_cons] at hnot
    obtain ⟨-, hinner, -, hmore⟩ := hnot
    rw [List.cons_append, List.append_assoc, List.cons_append]
    exact (ihinner hinner).trans (ihmore hmore)

theorem pathRest_of_scanPath {tokens : List String} (h : scanPath false 0 tokens = true) :
    PathRest tokens := by
  induction hlength : tokens.length using Nat.strongRecOn generalizing tokens with
  | _ length ih =>
    cases tokens with
    | nil => exact .nil
    | cons token rest =>
      rw [List.length_cons] at hlength
      rw [scanPath, if_neg (Nat.lt_irrefl 0), if_neg Bool.false_ne_true] at h
      by_cases hdot : token = "."
      · subst hdot
        rw [if_pos rfl] at h
        cases rest with
        | nil => cases h
        | cons name rest =>
          rw [List.length_cons] at hlength
          obtain ⟨hname, h⟩ := Bool.and_eq_true_iff.mp h
          exact .field hname (ih _ (by omega) h rfl)
      rw [if_neg hdot] at h
      by_cases hopen : token = "["
      · subst hopen
        rw [if_pos rfl] at h
        obtain ⟨inner, rest, rfl, hinner, -, h⟩ := exists_of_scanPath_open h
        simp only [List.length_append, List.length_cons] at hlength
        exact .index hinner (ih _ (by omega) h rfl)
      · rw [if_neg hopen] at h
        cases h

theorem scanPath_of_pathRest {tokens : List String} (h : PathRest tokens)
    (hnot : ¬ HoldsStep tokens) : scanPath false 0 tokens = true := by
  induction h with
  | nil => rfl
  | field hname _ ih =>
    rw [not_holdsStep_cons, not_holdsStep_cons] at hnot
    exact Bool.and_eq_true_iff.mpr ⟨hname, ih hnot.2.2⟩
  | index hinner _ ih =>
    rw [not_holdsStep_cons, not_holdsStep_append, not_holdsStep_cons] at hnot
    obtain ⟨-, hinner', -, hrest⟩ := hnot
    exact (scanPath_paired hinner hinner').trans (ih hrest)

/-- What can be assigned to is a path without increments. -/
theorem isAssignable_iff {tokens : List String} :
    isAssignable tokens = true ↔ IsPath tokens ∧ ¬ HoldsStep tokens := by
  constructor
  · intro h
    refine ⟨?_, not_holdsStep_iff.mpr (not_isStep_of_scanPath h)⟩
    cases tokens with
    | nil => cases h
    | cons name rest =>
      obtain ⟨hname, h⟩ := Bool.and_eq_true_iff.mp h
      exact ⟨name, rest, rfl, hname, pathRest_of_scanPath h⟩
  · rintro ⟨⟨name, rest, rfl, hname, hrest⟩, hnot⟩
    exact Bool.and_eq_true_iff.mpr ⟨hname, scanPath_of_pathRest hrest (not_holdsStep_cons.mp hnot).2⟩

/-- Tokens are refused iff they hold an increment and are not one as a whole. -/
theorem not_stepsWhole_iff {tokens : List String} :
    ¬ StepsWhole tokens ↔ HoldsStep tokens ∧ ¬ IsWholeStep tokens := by
  have hwhole : IsPrefixStep tokens ∨ IsPostfixStep tokens ↔ IsWholeStep tokens := by
    simp only [IsPrefixStep, IsPostfixStep, IsWholeStep, isAssignable_iff]
    constructor
    · rintro (⟨op, target, heq, hop, hpath, hnot⟩ | ⟨target, op, heq, hop, hpath, hnot⟩)
      · exact ⟨op, target, hop, hpath, hnot, Or.inl heq⟩
      · exact ⟨op, target, hop, hpath, hnot, Or.inr heq⟩
    · rintro ⟨op, target, hop, hpath, hnot, heq | heq⟩
      · exact Or.inl ⟨op, target, heq, hop, hpath, hnot⟩
      · exact Or.inr ⟨target, op, heq, hop, hpath, hnot⟩
  rw [StepsWhole, hwhole, ← not_holdsStep_iff, not_or, not_not]

end Syntax

/-! ## Tokens of a tree -/

namespace Node

open Grammar

mutual

/-- All nodes of the tree. -/
def nodes : Node → List Node
  | ⟨kind, payload, children⟩ => ⟨kind, payload, children⟩ :: nodesAll children

/-- All nodes of several trees. -/
def nodesAll : List Node → List Node
  | [] => []
  | c :: rest => c.nodes ++ nodesAll rest

end

/-- The operator of several tokens that siblings of these kinds begin with, the longest if there are
several. -/
def operatorAt (kinds : List String) : Option (List String) :=
  (greaterOperators ++ lessOperators).find? (·.isPrefixOf kinds)

mutual

/-- The texts of the leaves below a node, in order. -/
def leafTexts : Node → List String
  | ⟨_, _, children⟩ => leafTextsAll 0 children

/-- The texts of the leaves of siblings, of which the first `taken` are parts of an operator. -/
def leafTextsAll (taken : Nat) : List Node → List String
  | [] => []
  | c :: rest =>
    if c.isComment then leafTextsAll taken rest
    else if 0 < taken then leafTextsAll (taken - 1) rest
    else if c.kind = "typeArguments" then leafTextsAll 0 rest
    else if !c.isLeaf then c.leafTexts ++ leafTextsAll 0 rest
    else
      match operatorAt ((siblings (c :: rest)).map kind) with
      | some operator => String.join operator :: leafTextsAll (operator.length - 1) rest
      | none => c.text :: leafTextsAll 0 rest

end

variable {c d x : Node} {l rest : List Node} {taken : Nat}

theorem leafTexts_eq (x : Node) : x.leafTexts = leafTextsAll 0 x.children := by
  cases x
  rfl

theorem mem_nodes_self (x : Node) : x ∈ x.nodes := by
  cases x
  exact List.mem_cons_self

/-- The nodes of a child are nodes of its parent. -/
theorem mem_nodes_of_child (hc : c ∈ x.children) (hd : d ∈ c.nodes) : d ∈ x.nodes := by
  have hall : ∀ l : List Node, c ∈ l → d ∈ nodesAll l := by
    intro l hc
    induction l with
    | nil => cases hc
    | cons e l ih =>
      rw [nodesAll, List.mem_append]
      rcases List.mem_cons.mp hc with rfl | hc
      · exact Or.inl hd
      · exact Or.inr (ih hc)
  cases x
  exact List.mem_cons_of_mem _ (hall _ hc)

theorem siblings_siblings (l : List Node) : siblings (siblings l) = siblings l := by
  simp [siblings]

/-- The texts are those of the nodes that are not comments. -/
theorem leafTextsAll_siblings (taken : Nat) (l : List Node) :
    leafTextsAll taken (siblings l) = leafTextsAll taken l := by
  induction l generalizing taken with
  | nil => rfl
  | cons c l ih =>
    by_cases hc : c.isComment = true
    · rw [siblings, List.filter_cons_of_neg (by simp [hc])]
      rw [leafTextsAll, if_pos hc]
      exact ih taken
    · have hsiblings : siblings (c :: l) = c :: siblings l :=
        List.filter_cons_of_pos (by simpa using hc)
      rw [hsiblings, leafTextsAll, leafTextsAll, ← hsiblings, siblings_siblings]
      simp only [ih]

/-- Behind the parts of an operator the texts go on. -/
theorem leafTextsAll_drop (hl : ∀ d ∈ l, d.isComment = false) (taken : Nat) :
    leafTextsAll taken l = leafTextsAll 0 (l.drop taken) := by
  induction l generalizing taken with
  | nil => simp [leafTextsAll]
  | cons c l ih =>
    rw [List.forall_mem_cons] at hl
    cases taken with
    | zero => rfl
    | succ taken =>
      rw [leafTextsAll, hl.1, if_neg Bool.false_ne_true, if_pos (Nat.succ_pos taken)]
      exact ih hl.2 taken

theorem isComment_of_siblings (h : siblings l = c :: rest) :
    c.isComment = false ∧ ∀ d ∈ rest, d.isComment = false := by
  have hall : ∀ d ∈ siblings l, d.isComment = false := by simp [siblings]
  rw [h, List.forall_mem_cons] at hall
  exact hall

/-- The first sibling is the next node. -/
theorem exists_next_of_siblings (h : siblings l = c :: rest) :
    ∃ behind, (skipComments l).2 = c :: behind ∧ siblings behind = rest := by
  rcases hs : skipComments l with ⟨texts, _ | ⟨d, behind⟩⟩
  · rw [siblings_skipComments, hs] at h
    cases h
  · rw [siblings_eq_cons hs] at h
    cases h
    exact ⟨behind, rfl, rfl⟩

/-- Of options in the order of their lengths, the first that fits is the longest. -/
theorem find?_of_longest {options : List (List String)} {kinds option : List String}
    (hsorted : options.Pairwise fun o o' => o'.length ≤ o.length)
    (h : Longest options kinds option) : options.find? (·.isPrefixOf kinds) = some option := by
  obtain ⟨first, hfind⟩ : ∃ first, options.find? (·.isPrefixOf kinds) = some first :=
    Option.isSome_iff_exists.mp (List.find?_isSome.mpr
      ⟨option, h.mem, List.isPrefixOf_iff_prefix.mpr h.begins⟩)
  have hfits : first.isPrefixOf kinds = true := by simpa using List.find?_some hfind
  have hbegins : first <+: kinds := List.isPrefixOf_iff_prefix.mp hfits
  have hle : first.length ≤ option.length := h.longest first (List.mem_of_find?_eq_some hfind) hbegins
  have hge : option.length ≤ first.length := by
    obtain ⟨-, before, behind, rfl, hbefore⟩ := List.find?_eq_some_iff_append.mp hfind
    obtain hmem | hmem := List.mem_append.mp h.mem
    · have hnot := hbefore option hmem
      simp [List.isPrefixOf_iff_prefix.mpr h.begins] at hnot
    · rcases List.mem_cons.mp hmem with rfl | hmem
      · exact Nat.le_refl _
      · exact (List.pairwise_cons.mp (List.pairwise_append.mp hsorted).2.1).1 option hmem
  have heq : first = option :=
    (List.prefix_of_prefix_length_le hbegins h.begins hle).eq_of_length (by omega)
  rw [hfind, heq]

/-- The longest of the operators that a token can begin is the operator that is found. -/
theorem operatorAt_of_longest {kind : String} {kinds option : List String}
    {options : List (List String)} (hoptions : operators? kind = some options)
    (h : Longest options (kind :: kinds) option) : operatorAt (kind :: kinds) = some option := by
  unfold operators? at hoptions
  rw [operatorAt, List.find?_append]
  split at hoptions
  · cases hoptions
    rw [find?_of_longest (by decide) h]
    rfl
  · split at hoptions
    · rename_i hkind
      cases hoptions
      have hnone : greaterOperators.find? (·.isPrefixOf (kind :: kinds)) = none := by
        subst hkind
        rfl
      rw [hnone, find?_of_longest (by decide) h]
      rfl
    · cases hoptions

theorem operatorAt_of_none {kind : String} (kinds : List String) (h : operators? kind = none) :
    operatorAt (kind :: kinds) = none := by
  unfold operators? at h
  have hgreater : ">" ≠ kind := by
    rintro rfl
    cases h
  have hless : "<" ≠ kind := by
    rintro rfl
    cases h
  simp [operatorAt, greaterOperators, lessOperators, List.isPrefixOf, hgreater, hless]

end Node

/-! ## Reading the tokens -/

namespace Reader

open Node MonadWalk

variable {n : Node} {α β : Type} {p : Place n}

/-- From `p` the reader comes to `a`, and leaves the siblings `l`. -/
def Comes (r : Reader n α) (p : Place n) (a : α) (l : List Node) : Prop :=
  ∃ q, r p = .ok (a, q) ∧ siblings q.left = l

theorem comes_pure {a : α} : Comes (pure a : Reader n α) p a (siblings p.left) :=
  ⟨p, rfl, rfl⟩

theorem Comes.bind {x : Reader n α} {f : α → Reader n β} {a : α} {b : β} {mid l : List Node}
    (hx : Comes x p a mid) (hf : ∀ q : Place n, siblings q.left = mid → Comes (f a) q b l) :
    Comes (x >>= f) p b l := by
  obtain ⟨q, hq, hmid⟩ := hx
  obtain ⟨r, hr, hl⟩ := hf q hmid
  exact ⟨r, by rw [bind_of_ok hq, hr], hl⟩

section

variable {c : Node} {l : List Node} {kinds : List String}

theorem comes_inside {body : (c : Node) → c ∈ n.children → Reader c α} {a : α}
    (hs : siblings p.left = c :: l) (hk : c.kind ∈ kinds)
    (hbody : ∀ hc, Comes (body c hc) (entering c p) a []) : Comes (inside kinds body) p a l := by
  obtain ⟨rest, hnext, hrest⟩ := exists_next_of_siblings hs
  obtain ⟨hc, hsuffix, heq⟩ := inside_of_next body hnext (List.contains_iff_mem.mpr hk)
  obtain ⟨q, hq, hleft⟩ := hbody hc
  obtain ⟨texts, hleave⟩ : ∃ texts, Node.leave c.kind q.left = .ok texts :=
    Node.leave_eq_ok_iff.mpr (by simpa [siblings] using hleft)
  exact ⟨⟨rest, hsuffix, q.comments ++ texts⟩, by rw [heq, hq, leaving, hleave], hrest⟩

theorem comes_expect (hs : siblings p.left = c :: l) (hk : c.kind ∈ kinds)
    (hleaf : c.isLeaf = true) : Comes (expect kinds : Reader n String) p c.kind l := by
  refine comes_inside hs hk fun hc => ⟨entering c p, rfl, ?_⟩
  show siblings c.children = []
  rw [List.isEmpty_iff.mp hleaf]
  rfl

end

/-- A place that has fewer siblings left has fewer nodes left. -/
theorem length_lt_of_siblings {p q : Place n}
    (h : (siblings q.left).length < (siblings p.left).length) : q.left.length < p.left.length := by
  by_contra hle
  have hsuffix := List.suffix_of_suffix_length_le p.within q.within (by omega)
  have := (hsuffix.sublist.filter fun n => !n.isComment).length_le
  exact absurd h (Nat.not_lt.mpr this)

end Reader

namespace Grammar

open Node Reader MonadWalk Syntax

variable {x c : Node} {l : List Node}

/-- A token with operators begins one of them, and they hold their beginnings. -/
theorem prefixClosed_of_operators {kind : String} {options : List (List String)}
    (h : operators? kind = some options) :
    PrefixClosed options ∧ kind ∈ options.filterMap List.head? := by
  unfold operators? at h
  split at h
  · rename_i hkind
    cases h
    exact ⟨prefixClosed_greaterOperators, hkind ▸ by decide⟩
  · split at h
    · rename_i hkind
      cases h
      exact ⟨prefixClosed_lessOperators, hkind ▸ by decide⟩
    · cases h

theorem childless_of_operators {kind : String} {options : List (List String)}
    (h : operators? kind = some options)
    (hleaf : ∀ d ∈ l, d.kind ∈ ["<", ">", "="] → d.isLeaf = true) : Childless options l := by
  rintro front d back rfl ⟨o, ho, hbegins⟩
  refine hleaf d (by simp) (mem_operators h o ho _ (hbegins.subset ?_))
  simp

/-- One round reads what the first sibling, and an operator that it begins, add to the texts. -/
theorem comes_tokenStep {p : Place x} (hs : siblings p.left = c :: l)
    (hleaf : ∀ d ∈ c :: l, d.kind ∈ ["<", ">", "="] → d.isLeaf = true)
    (hchild : ∀ q : Place c, q.left = c.children → Comes (tokensIn c) q c.leafTexts []) :
    ∃ part k, Comes (tokenStep x) p (some part) (l.drop k) ∧
      leafTextsAll 0 (c :: l) = part ++ leafTextsAll 0 (l.drop k) := by
  have hcomments := isComment_of_siblings hs
  have hnext : next? p.left = some c := by
    rw [← head?_siblings, hs]
    rfl
  have hpeek : (peek? : Reader x (Option Node)) p = .ok (some c, p) :=
    congrArg (fun next => Except.ok (next, p)) hnext
  have hin : Comes (inside [c.kind] fun c _ => tokensIn c : Reader x _) p c.leafTexts l :=
    comes_inside hs List.mem_cons_self fun _ => hchild _ rfl
  rw [leafTextsAll, hcomments.1, if_neg Bool.false_ne_true, if_neg (Nat.lt_irrefl 0)]
  simp only [tokenStep, Comes, bind_of_ok hpeek]
  by_cases harguments : c.kind = "typeArguments"
  · refine ⟨[], 0, ?_, by rw [if_pos harguments]; rfl⟩
    rw [if_pos harguments]
    exact hin.bind fun q hq => hq ▸ comes_pure
  simp only [if_neg harguments]
  by_cases hinner : c.isLeaf = true
  · simp only [hinner, Bool.not_true, if_neg Bool.false_ne_true]
    have hsiblings : siblings (c :: l) = c :: l := by rw [← hs, siblings_siblings]
    rw [hsiblings, List.map_cons]
    cases hoptions : operators? c.kind with
    | some options =>
      obtain ⟨hclosed, hk⟩ := prefixClosed_of_operators hoptions
      obtain ⟨o, q, ho, hq, hdrop⟩ := multiMatch_reader_longest p hnext hk hclosed
        (by rw [hs]; exact childless_of_operators hoptions hleaf)
      rw [hs] at ho hdrop
      obtain ⟨t, o, rfl⟩ := List.exists_cons_of_ne_nil (hclosed.tokens o ho.mem)
      refine ⟨[String.join (t :: o)], o.length, ?_, ?_⟩
      · exact Comes.bind ⟨q, hq, hdrop⟩ fun q hq => hq ▸ comes_pure
      · rw [operatorAt_of_longest hoptions ho]
        dsimp only
        rw [leafTextsAll_drop hcomments.2]
        rfl
    | none =>
      refine ⟨[c.text], 0, ?_, by rw [operatorAt_of_none _ hoptions]; rfl⟩
      have htext : Comes (expectText [c.kind] : Reader x String) p c.text l := by
        unfold expectText
        simp only [Comes, bind_of_ok hpeek]
        exact (comes_expect hs List.mem_cons_self hinner).bind fun q hq => hq ▸ comes_pure
      exact htext.bind fun q hq => hq ▸ comes_pure
  · simp only [hinner]
    exact ⟨c.leafTexts, 0, hin.bind fun q hq => hq ▸ comes_pure, rfl⟩

/-- Round by round, all siblings are read. -/
theorem comes_repeating_tokenStep (p : Place x)
    (hleaf : ∀ d ∈ siblings p.left, d.kind ∈ ["<", ">", "="] → d.isLeaf = true)
    (hchild : ∀ c ∈ x.children, ∀ q : Place c, q.left = c.children →
      Comes (tokensIn c) q c.leafTexts []) :
    ∃ parts, Comes (gather (tokenStep x)) p parts [] ∧
      parts.flatten = leafTextsAll 0 (siblings p.left) := by
  unfold gather
  cases hs : siblings p.left with
  | nil =>
    have hnone : tokenStep x p = .ok (none, p) := by
      have hpeek : (peek? : Reader x (Option Node)) p = .ok (none, p) := by
        show Except.ok (next? p.left, p) = _
        rw [← head?_siblings, hs]
        rfl
      rw [tokenStep, bind_of_ok hpeek]
      rfl
    exact ⟨[], ⟨p, by rw [repeating, hnone], hs⟩, rfl⟩
  | cons c l =>
    have hc : c ∈ x.children :=
      p.within.subset (List.mem_of_mem_filter (hs ▸ List.mem_cons_self : c ∈ siblings p.left))
    rw [hs] at hleaf
    obtain ⟨part, k, ⟨q, hq, hdrop⟩, htexts⟩ := comes_tokenStep hs hleaf (hchild c hc)
    have hlt : q.left.length < p.left.length := by
      refine length_lt_of_siblings ?_
      rw [hdrop, hs, List.length_drop, List.length_cons]
      omega
    obtain ⟨parts, ⟨r, hr, hnil⟩, hparts⟩ := comes_repeating_tokenStep q
      (fun d hd => hleaf d (List.mem_cons_of_mem c (List.mem_of_mem_drop (hdrop ▸ hd)))) hchild
    refine ⟨part :: parts, ⟨r, ?_, hnil⟩, ?_⟩
    · rw [repeating, hq]
      dsimp only
      rw [if_pos hlt, show repeating (tokenStep x) q = .ok (parts, r) from hr]
    · rw [List.flatten_cons, hparts, hdrop, htexts]
termination_by p.left.length

/-- **The tokens of a tree are its leaf texts.** The recursion is on the tree. -/
theorem comes_tokensIn (x : Node)
    (hleaf : ∀ d ∈ x.nodes, d.kind ∈ ["<", ">", "="] → d.isLeaf = true) (p : Place x)
    (hp : p.left = x.children) : Comes (tokensIn x) p x.leafTexts [] := by
  have hsiblings : ∀ d ∈ siblings p.left, d.kind ∈ ["<", ">", "="] → d.isLeaf = true := by
    intro d hd
    have hmem : d ∈ x.children := hp ▸ List.mem_of_mem_filter hd
    exact hleaf d (mem_nodes_of_child hmem (mem_nodes_self d))
  obtain ⟨parts, hparts, hflatten⟩ := comes_repeating_tokenStep p hsiblings fun c hc q hq =>
    have := Node.count_lt_of_mem hc
    comes_tokensIn c (fun d hd => hleaf d (mem_nodes_of_child hc hd)) q hq
  rw [leafTexts_eq, ← hp, ← leafTextsAll_siblings, ← hflatten, tokensIn_eq]
  exact hparts.bind fun q hq => hq ▸ comes_pure
termination_by x.count

end Grammar

/-! ## Expressions -/

namespace Program

open Node Reader Grammar Syntax

variable {n : Node}

/-- Writing an expression at once is reading it and writing it later. -/
theorem expression_eq_exprText (cx : Context) :
    (cx.expression : Reader n String) = exprText .ruby cx <$> Grammar.expression .ruby := by
  rw [Context.expression, Grammar.expression, map_eq_pure_bind, bind_assoc]
  refine congrArg (bind _) (funext fun tokens => ?_)
  unfold spelled
  cases h : innerStep? tokens with
  | none =>
    rw [Ruby.render_eq_exprText cx.localType? h, Expr.ofTokens_whole h]
    rfl
  | some op =>
    rw [Ruby.render_of_innerStep? h, Expr.ofTokens_of_innerStep? h]
    rfl

/-- **Expressions fail on increments only.** Let an expression, of any shape, be the next node, and let
its nodes `<`, `>` and `=` have no children. Then it is taken as a whole, with its leaf texts as tokens.
It is refused, as unsupported, iff there is an increment among these and they are not one increment of a
path; otherwise it is written. Reading the expression first and writing it later comes to the same. -/
theorem expression_text_iff (cx : Context) (tree : Node) (p : Place n) (rest : List Node)
    (hkind : tree.kind = "expression")
    (hleaf : ∀ d ∈ tree.nodes, d.kind ∈ ["<", ">", "="] → d.children = [])
    (hnext : (skipComments p.left).2 = tree :: rest) :
    ∃ q, q.left = rest ∧
      (inside ["expression"] fun c _ => tokensIn c : Reader n _) p = .ok (tree.leafTexts, q) ∧
      ((∃ construct, cx.expression p = .error (.unsupported construct)) ↔
        HoldsStep tree.leafTexts ∧ ¬ IsWholeStep tree.leafTexts) ∧
      ((∃ text, cx.expression p = .ok (text, q)) ↔
        ¬ (HoldsStep tree.leafTexts ∧ ¬ IsWholeStep tree.leafTexts)) ∧
      cx.expression p = (exprText .ruby cx <$> Grammar.expression .ruby : Reader n String) p := by
  have htokens := comes_tokensIn tree (fun d hd hk => List.isEmpty_iff.mpr (hleaf d hd hk))
    (entering tree p) rfl
  obtain ⟨q, hin, hq⟩ : Comes (inside ["expression"] fun c _ => tokensIn c : Reader n _) p
      tree.leafTexts (siblings rest) :=
    comes_inside (siblings_eq_cons (Prod.ext rfl hnext)) (by simp [hkind]) fun _ => htokens
  obtain ⟨c, rest', -, -, hnext', -, -, -, hleft⟩ := exists_of_inside hin
  obtain rfl : rest = rest' := (List.cons.inj (hnext.symm.trans hnext')).2
  refine ⟨q, hleft, hin, ?_⟩
  rw [← and_assoc, ← not_stepsWhole_iff, not_not, ← innerStep?_eq_none_iff]
  refine ⟨?_, congrFun (expression_eq_exprText cx) p⟩
  rw [Context.expression, bind_of_ok hin]
  cases h : innerStep? tree.leafTexts with
  | none =>
    rw [Ruby.render_eq_exprText cx.localType? h]
    exact ⟨iff_of_false (by rintro ⟨_, ⟨⟩⟩) (by simp), iff_of_true ⟨_, rfl⟩ rfl⟩
  | some op =>
    rw [Ruby.render_of_innerStep? h]
    exact ⟨iff_of_true ⟨_, rfl⟩ (by simp), iff_of_false (by rintro ⟨_, ⟨⟩⟩) (by simp)⟩

/-- The expression `a.<T> b >>= i++`, the operator in three pieces with a comment between them. -/
def shiftedByStep : Node :=
  ⟨"expression", none, [Phrase.identifier "a", Phrase.token ".",
    Phrase.node "typeArguments" [Phrase.token "<", Phrase.identifier "T", Phrase.token ">"],
    Phrase.node "primary" [Phrase.identifier "b"], Phrase.token ">", Phrase.token ">",
    Phrase.comment "// shift", Phrase.token "=", Phrase.identifier "i", Phrase.token "++"]⟩

theorem expression_text_iff_shiftedByStep :
    (∀ d ∈ shiftedByStep.nodes, d.kind ∈ ["<", ">", "="] → d.children = []) ∧
      shiftedByStep.leafTexts = ["a", ".", "b", ">>=", "i", "++"] ∧
      ∃ construct, Context.topLevel.expression
        (⟨[shiftedByStep], List.suffix_refl _, []⟩ : Place (above shiftedByStep)) =
          .error (.unsupported construct) := by
  have hleaf : ∀ d ∈ shiftedByStep.nodes, d.kind ∈ ["<", ">", "="] → d.children = [] := by decide
  have htexts : shiftedByStep.leafTexts = ["a", ".", "b", ">>=", "i", "++"] := by decide
  obtain ⟨q, -, -, hrefused, -, -⟩ := expression_text_iff .topLevel shiftedByStep
    (⟨[shiftedByStep], List.suffix_refl _, []⟩ : Place (above shiftedByStep)) [] rfl hleaf rfl
  refine ⟨hleaf, htexts, hrefused.mpr ?_⟩
  rw [htexts]
  refine ⟨⟨"++", by decide, rfl⟩, ?_⟩
  rintro ⟨op, target, hop, hpath, hnot, heq | heq⟩
  · cases heq
    cases hop
  · have hsplit : ["a", ".", "b", ">>=", "i"] ++ ["++"] = target ++ [op] := heq
    obtain ⟨rfl, -⟩ := List.append_inj' hsplit rfl
    exact absurd (isAssignable_iff.mpr ⟨hpath, hnot⟩) (by decide +kernel)

end Program

end Rubify
