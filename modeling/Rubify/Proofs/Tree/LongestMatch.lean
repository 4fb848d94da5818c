import Rubify.Grammar.Expression
import Rubify.Proofs.Tree.Frames
import Mathlib.Data.List.Infix

/-!
# The longest of several options

`multiMatch` takes tokens as long as they continue one of its options, and stops as soon as it may.
It never goes back, so this finds the longest option only if every place where it can get stuck is
the end of an option: where the options hold their own beginnings (`PrefixClosed`), as the operators
that begin with `>` and with `<` do. Behind the first token one option is then always complete, and
`multiMatchFrom_longest` is the induction over the tokens that are left.

Headline: **`multiMatch_longest`**.
-/

namespace Rubify

variable {S : Type}

/-! ## Siblings behind one another -/

namespace Node

/-- The nodes of a sibling list that are not comments. -/
def siblings (left : List Node) : List Node :=
  left.filter fun n => !n.isComment

/-- The comments in front of the next `k` nodes, and what is left behind these nodes. -/
def past : Nat → List Node → List String × List Node
  | 0, left => ([], left)
  | k + 1, left =>
    match skipComments left with
    | (texts, []) => (texts, [])
    | (texts, _ :: rest) => (texts ++ (past k rest).1, (past k rest).2)

theorem siblings_skipComments (left : List Node) :
    siblings left = siblings (skipComments left).2 := by
  induction left with
  | nil => rfl
  | cons n rest ih =>
    rw [skipComments]
    split
    · rename_i hn
      rw [← ih, siblings, List.filter_cons_of_neg (by simp [hn])]
      rfl
    · rfl

theorem siblings_eq_cons {left rest : List Node} {texts : List String} {n : Node}
    (h : skipComments left = (texts, n :: rest)) : siblings left = n :: siblings rest := by
  have hn : n.isComment = false := isComment_of_skipComments (congrArg Prod.snd h)
  rw [siblings_skipComments, h, siblings, List.filter_cons_of_pos (by simp [hn])]
  rfl

theorem head?_siblings (left : List Node) : (siblings left).head? = next? left := by
  rcases hs : skipComments left with ⟨texts, _ | ⟨n, rest⟩⟩
  · rw [siblings_skipComments, next?, hs]
    rfl
  · rw [siblings_eq_cons hs, next?, hs]
    rfl

theorem siblings_past (k : Nat) (left : List Node) :
    siblings (past k left).2 = (siblings left).drop k := by
  induction k generalizing left with
  | zero => rfl
  | succ k ih =>
    rw [past]
    rcases hs : skipComments left with ⟨texts, _ | ⟨n, rest⟩⟩
    · rw [siblings_skipComments left, hs]
      rfl
    · rw [siblings_eq_cons hs, List.drop_succ_cons, ← ih rest]

end Node

namespace Walk

/-- The walk behind the next `k` nodes, with the comments in front of them queued. -/
def past (w : Walk) (k : Nat) : Walk :=
  w.moved (Node.past k w.top.left).2 (w.comments ++ (Node.past k w.top.left).1)

theorem past_zero (w : Walk) : w.past 0 = w := by
  rw [past, Node.past, List.append_nil, moved_self]

theorem past_succ {w : Walk} {texts : List String} {n : Node} {rest : List Node}
    (h : Node.skipComments w.top.left = (texts, n :: rest)) (k : Nat) :
    w.past (k + 1) = (w.moved rest (w.comments ++ texts)).past k := by
  have hqueue : (w.moved rest (w.comments ++ texts)).comments = w.comments ++ texts := rfl
  rw [past, past, top_moved, moved_moved, hqueue, Node.past, h, List.append_assoc]

end Walk

/-! ## Options -/

/-- Some options, none of them empty, that hold every beginning of theirs. -/
structure PrefixClosed (options : List (List String)) : Prop where
  nonempty : options ≠ []
  tokens : ∀ o ∈ options, o ≠ []
  closed : ∀ o ∈ options, ∀ p, p <+: o → p ≠ [] → p ∈ options

/-- The option is the longest of those the kinds begin with. -/
structure Longest (options : List (List String)) (kinds option : List String) : Prop where
  mem : option ∈ options
  begins : option <+: kinds
  longest : ∀ o ∈ options, o <+: kinds → o.length ≤ option.length

/-- The nodes have no children, up to the first that does not continue an option. -/
def Childless (options : List (List String)) (nodes : List Node) : Prop :=
  ∀ front n back, nodes = front ++ n :: back →
    (∃ o ∈ options, (front ++ [n]).map Node.kind <+: o) → n.isLeaf = true

namespace MonadWalk

variable {options : List (List String)} {token : String}

theorem mem_continuing {o : List String} : o ∈ continuing token options ↔ token :: o ∈ options := by
  rw [continuing, List.mem_filterMap]
  constructor
  · rintro ⟨_ | ⟨first, rest⟩, hmem, h⟩
    · cases h
    · split at h
      · cases h
      · rename_i heq
        cases heq
        split at h
        · cases h
          rename_i htoken
          exact htoken ▸ hmem
        · cases h
  · intro hmem
    exact ⟨token :: o, hmem, if_pos rfl⟩

theorem mem_heads : token ∈ options.filterMap List.head? ↔ ∃ o, token :: o ∈ options := by
  rw [List.mem_filterMap]
  constructor
  · rintro ⟨_ | ⟨first, rest⟩, hmem, h⟩
    · cases h
    · cases h
      exact ⟨rest, hmem⟩
  · rintro ⟨o, hmem⟩
    exact ⟨token :: o, hmem, rfl⟩

/-- Options that hold their beginnings hold the empty one too behind a token. -/
theorem continuing_closed (h : ∀ o ∈ options, ∀ p, p <+: o → p ≠ [] → p ∈ options) :
    ∀ o ∈ continuing token options, ∀ p, p <+: o → p ∈ continuing token options :=
  fun _ ho p hp => mem_continuing.mpr (h _ (mem_continuing.mp ho) (token :: p)
    (List.cons_prefix_cons.mpr ⟨rfl, hp⟩) (List.cons_ne_nil _ _))

end MonadWalk

section

variable {options : List (List String)} {kinds : List String} {token : String}

/-- A complete option is the longest if the next kind does not begin another. -/
theorem Longest.stop (hnil : [] ∈ options)
    (h : ∀ kind, kinds.head? = some kind → kind ∉ options.filterMap List.head?) :
    Longest options kinds [] where
  mem := hnil
  begins := List.nil_prefix
  longest := by
    rintro (_ | ⟨first, o⟩) hmem hp
    · exact Nat.le_refl _
    · obtain ⟨more, rfl⟩ := hp
      exact absurd (MonadWalk.mem_heads.mpr ⟨o, hmem⟩) (h first rfl)

/-- The longest option goes on with the longest of those that continue. -/
theorem Longest.take {o : List String} (h : Longest (MonadWalk.continuing token options) kinds o) :
    Longest options (token :: kinds) (token :: o) where
  mem := MonadWalk.mem_continuing.mp h.mem
  begins := List.cons_prefix_cons.mpr ⟨rfl, h.begins⟩
  longest := by
    rintro (_ | ⟨first, o'⟩) hmem hp
    · exact Nat.zero_le _
    · obtain ⟨rfl, hp'⟩ := List.cons_prefix_cons.mp hp
      exact Nat.succ_le_succ (h.longest o' (MonadWalk.mem_continuing.mpr hmem) hp')

theorem childless_nil : Childless options [] := by
  rintro (_ | ⟨m, front⟩) n back h <;> cases h

theorem childless_of_no_option {nodes : List Node} : Childless [] nodes := by
  rintro _ _ _ _ ⟨o, ho, -⟩
  cases ho

/-- The first node is childless if it begins an option, and so are those behind it as far as they
continue one. -/
theorem childless_cons {n : Node} {nodes : List Node} : Childless options (n :: nodes) ↔
    (n.kind ∈ options.filterMap List.head? → n.isLeaf = true) ∧
      Childless (MonadWalk.continuing n.kind options) nodes := by
  constructor
  · intro h
    constructor
    · intro hn
      obtain ⟨o, hmem⟩ := MonadWalk.mem_heads.mp hn
      exact h [] n nodes rfl ⟨n.kind :: o, hmem, List.cons_prefix_cons.mpr ⟨rfl, List.nil_prefix⟩⟩
    · rintro front m back rfl ⟨o, hmem, hp⟩
      exact h (n :: front) m back rfl
        ⟨n.kind :: o, MonadWalk.mem_continuing.mp hmem, List.cons_prefix_cons.mpr ⟨rfl, hp⟩⟩
  · rintro ⟨hfirst, hrest⟩ (_ | ⟨m, front⟩) n' back heq ⟨o, hmem, hp⟩
    · cases heq
      obtain ⟨more, rfl⟩ := hp
      exact hfirst (MonadWalk.mem_heads.mpr ⟨more, hmem⟩)
    · cases heq
      obtain ⟨more, rfl⟩ := hp
      exact hrest front n' back rfl ⟨_, MonadWalk.mem_continuing.mpr hmem, List.prefix_append _ _⟩

end

/-! ## Taking one token -/

namespace WalkT

section

variable {w : Walk} {s : S} {kinds texts : List String} {n : Node} {rest : List Node}

/-- Taking a node of one of the kinds goes past it, and succeeds if its children are comments. -/
theorem expect_run (h : Node.skipComments w.top.left = (texts, n :: rest)) (hk : n.kind ∈ kinds) :
    (MonadWalk.expect kinds : WalkT (StateM S) String).run.run w s =
      (((Node.leave n.kind n.children).map fun _ => n.kind,
        w.moved rest (w.comments ++ texts ++ (Node.skipComments n.children).1)), s) := by
  have hfound : Node.found w.top.left = n.kind := by
    rw [Node.found, Node.nextKind?, Node.next?, h]
    rfl
  have hwith : (expectWith kinds (return) : WalkT (StateM S) Unit).run.run w s =
      (((Node.leave n.kind n.children).map fun _ => (),
        w.moved rest (w.comments ++ texts ++ (Node.skipComments n.children).1)), s) := by
    rw [expectWith_eq_scope, run_bind, run_scope (enter_of_mem h hk) rfl (leave_push _ _ _)]
    cases Node.leave n.kind n.children <;> rfl
  show (get >>= fun w : Walk => expectWith kinds (return) >>= fun _ =>
    return Node.found w.top.left : WalkT (StateM S) String).run.run w s = _
  rw [run_bind]
  show (expectWith kinds (return) >>= fun _ =>
    return Node.found w.top.left : WalkT (StateM S) String).run.run w s = _
  rw [run_bind, hwith, hfound]
  cases Node.leave n.kind n.children <;> rfl

theorem expect_of_mem (h : Node.skipComments w.top.left = (texts, n :: rest)) (hk : n.kind ∈ kinds)
    (hleaf : n.isLeaf = true) : (MonadWalk.expect kinds : WalkT (StateM S) String).run.run w s =
      ((.ok n.kind, w.moved rest (w.comments ++ texts)), s) := by
  rw [expect_run h hk, List.isEmpty_iff.mp hleaf]
  show ((Except.ok n.kind, w.moved rest (w.comments ++ texts ++ [])), s) = _
  rw [List.append_nil]

theorem tryMatch_of_mem (h : Node.skipComments w.top.left = (texts, n :: rest))
    (hk : n.kind ∈ kinds) (hleaf : n.isLeaf = true) :
    (MonadWalk.tryMatch kinds : WalkT (StateM S) (Option String)).run.run w s =
      ((.ok (some n.kind), w.moved rest (w.comments ++ texts)), s) := by
  have hnext : (MonadWalk.nextIs kinds : WalkT (StateM S) Bool).run.run w s =
      ((.ok true, w), s) := by
    rw [nextIs_run, Node.nextKind?, Node.next?, h, List.head?_cons, Option.map_some,
      Option.any_some, List.contains_iff_mem.mpr hk]
  rw [MonadWalk.tryMatch, run_bind, hnext]
  show (MonadWalk.expect kinds >>= fun kind => return some kind :
    WalkT (StateM S) (Option String)).run.run w s = _
  rw [run_bind, expect_of_mem h hk hleaf]
  rfl

end

/-! ## Taking all of them -/

section

variable {options : List (List String)} {taken : Option String} {w : Walk} {s : S}

/-- A token that continues an option is taken, whether one must follow or not. -/
theorem multiMatchFrom_take {texts : List String} {n : Node} {rest : List Node}
    (h : Node.skipComments w.top.left = (texts, n :: rest))
    (hk : n.kind ∈ options.filterMap List.head?) (hleaf : n.isLeaf = true) :
    (MonadWalk.multiMatchFrom options taken : WalkT (StateM S) (Option String)).run.run w s =
      (MonadWalk.multiMatchFrom (MonadWalk.continuing n.kind options)
        (some (taken.getD "" ++ n.kind)) : WalkT (StateM S) (Option String)).run.run
          (w.moved rest (w.comments ++ texts)) s := by
  rw [MonadWalk.multiMatchFrom, dif_neg (List.ne_nil_of_mem hk)]
  dsimp only
  split
  · rw [run_bind, map_eq_pure_bind, run_bind, expect_of_mem h hk hleaf]
    rfl
  · rw [run_bind, tryMatch_of_mem h hk hleaf]

/-- Once an option is complete, a token that continues none is not taken. -/
theorem multiMatchFrom_stop (hnil : [] ∈ options)
    (h : ∀ n, Node.next? w.top.left = some n → n.kind ∉ options.filterMap List.head?) :
    (MonadWalk.multiMatchFrom options taken : WalkT (StateM S) (Option String)).run.run w s =
      ((.ok taken, w), s) := by
  rw [MonadWalk.multiMatchFrom]
  split
  · rfl
  · have hlength : ¬ (options.filterMap List.head?).length = options.length := by
      rw [List.filterMap_length_eq_length]
      intro hall
      exact absurd (hall [] hnil) Bool.false_ne_true
    dsimp only
    rw [if_neg hlength, run_bind, (misses_of_not_mem h).tryMatch]
    rfl

/-- As long as no option is complete, one of them must go on. -/
theorem multiMatchFrom_fail (hne : options ≠ []) (htokens : ∀ o ∈ options, o ≠ [])
    (h : ∀ n, Node.next? w.top.left = some n → n.kind ∉ options.filterMap List.head?) :
    (MonadWalk.multiMatchFrom options taken : WalkT (StateM S) (Option String)).run.run w s =
      ((.error (Node.mismatch w.top.parent w.top.left (options.filterMap List.head?)), w), s) := by
  have hlength : (options.filterMap List.head?).length = options.length := by
    rw [List.filterMap_length_eq_length]
    intro o ho
    exact List.isSome_head?.mpr (htokens o ho)
  have hheads : ¬ options.filterMap List.head? = [] := by
    intro hnil
    rw [hnil] at hlength
    exact hne (List.length_eq_zero_iff.mp hlength.symm)
  rw [MonadWalk.multiMatchFrom, dif_neg hheads]
  dsimp only
  rw [if_pos hlength, run_bind, map_eq_pure_bind, run_bind, (misses_of_not_mem h).expect]

end

/-- From here on the longest option is taken, behind the text taken so far. -/
def TakesLongest (options : List (List String)) (taken : Option String) (w : Walk) (s : S) : Prop :=
  ∃ o, Longest options ((Node.siblings w.top.left).map Node.kind) o ∧
    (MonadWalk.multiMatchFrom options taken : WalkT (StateM S) (Option String)).run.run w s =
      ((.ok (some (taken.getD "" ++ String.join o)), w.past o.length), s)

section

variable {options : List (List String)} {taken : Option String} {w : Walk} {s : S}

/-- Once an option is complete and no other goes on, it is the longest. -/
theorem takesLongest_of_stop {text : String} (hnil : [] ∈ options)
    (h : ∀ n, Node.next? w.top.left = some n → n.kind ∉ options.filterMap List.head?) :
    TakesLongest options (some text) w s := by
  refine ⟨[], .stop hnil fun kind hkind => ?_, ?_⟩
  · rw [List.head?_map, Node.head?_siblings, Option.map_eq_some_iff] at hkind
    obtain ⟨n, hn, rfl⟩ := hkind
    exact h n hn
  · rw [multiMatchFrom_stop hnil h, Option.getD_some, String.join_nil, String.append_empty,
      List.length_nil, Walk.past_zero]

/-- The longest option is the next token with the longest option behind it. -/
theorem TakesLongest.take {texts : List String} {n : Node} {rest : List Node}
    (hs : Node.skipComments w.top.left = (texts, n :: rest))
    (hk : n.kind ∈ options.filterMap List.head?) (hleaf : n.isLeaf = true)
    (h : TakesLongest (MonadWalk.continuing n.kind options) (some (taken.getD "" ++ n.kind))
      (w.moved rest (w.comments ++ texts)) s) : TakesLongest options taken w s := by
  obtain ⟨o, ho, hrun⟩ := h
  rw [w.top_moved] at ho
  refine ⟨n.kind :: o, ?_, ?_⟩
  · rw [Node.siblings_eq_cons hs]
    exact ho.take
  · rw [multiMatchFrom_take hs hk hleaf, hrun, Option.getD_some, List.length_cons,
      Walk.past_succ hs, String.join_cons, String.append_assoc]

end

/-- **From a token that begins an option on, the longest option is taken.** The recursion is on the
tokens of the options that are left; behind the token one of these is complete. -/
theorem takesLongest_of_next (options : List (List String)) (taken : Option String) (w : Walk)
    (s : S) {n : Node} (hn : Node.next? w.top.left = some n)
    (hk : n.kind ∈ options.filterMap List.head?)
    (hclosed : ∀ o ∈ options, ∀ p, p <+: o → p ≠ [] → p ∈ options)
    (hleaf : Childless options (Node.siblings w.top.left)) : TakesLongest options taken w s := by
  obtain ⟨texts, rest, hs⟩ := Node.skipComments_of_next? hn
  obtain ⟨o, hmem⟩ := MonadWalk.mem_heads.mp hk
  rw [Node.siblings_eq_cons hs, childless_cons] at hleaf
  have hclosed' : ∀ o ∈ MonadWalk.continuing n.kind options, ∀ p, p <+: o →
      p ∈ MonadWalk.continuing n.kind options := MonadWalk.continuing_closed hclosed
  have hnil : [] ∈ MonadWalk.continuing n.kind options :=
    hclosed' o (MonadWalk.mem_continuing.mpr hmem) [] List.nil_prefix
  have hlt := MonadWalk.tokenTotal_continuing_lt n.kind (List.ne_nil_of_mem hk)
  refine .take hs hk (hleaf.1 hk) ?_
  by_cases hnext : ∃ m, Node.next? (w.moved rest (w.comments ++ texts)).top.left = some m ∧
      m.kind ∈ (MonadWalk.continuing n.kind options).filterMap List.head?
  · obtain ⟨m, hm, hkm⟩ := hnext
    exact takesLongest_of_next _ _ _ s hm hkm (fun o ho p hp _ => hclosed' o ho p hp)
      (by rw [w.top_moved]; exact hleaf.2)
  · exact takesLongest_of_stop hnil fun m hm hkm => hnext ⟨m, hm, hkm⟩
termination_by MonadWalk.tokenTotal options

end WalkT

/-! ## The operators -/

/-- Options hold all their beginnings if the check of each beginning says so. -/
theorem PrefixClosed.of_inits {options : List (List String)} (hne : options ≠ [])
    (htokens : ∀ o ∈ options, o ≠ [])
    (hclosed : ∀ o ∈ options, ∀ p ∈ o.inits, p ≠ [] → p ∈ options) : PrefixClosed options :=
  ⟨hne, htokens, fun o ho p hp => hclosed o ho p ((List.mem_inits p o).mpr hp)⟩

theorem prefixClosed_greaterOperators : PrefixClosed Grammar.greaterOperators :=
  .of_inits (by decide) (by decide) (by decide)

theorem prefixClosed_lessOperators : PrefixClosed Grammar.lessOperators :=
  .of_inits (by decide) (by decide) (by decide)

/-- Some option is there iff the next token begins one. -/
theorem PrefixClosed.exists_prefix_iff {options : List (List String)} (h : PrefixClosed options)
    (left : List Node) : (∃ o ∈ options, o <+: (Node.siblings left).map Node.kind) ↔
      ∃ n, Node.next? left = some n ∧ n.kind ∈ options.filterMap List.head? := by
  constructor
  · rintro ⟨_ | ⟨first, o⟩, hmem, hp⟩
    · exact absurd rfl (h.tokens [] hmem)
    · obtain ⟨more, hkinds⟩ := hp
      have hfirst := congrArg List.head? hkinds
      rw [List.head?_map, Node.head?_siblings] at hfirst
      obtain ⟨n, hn, hkind⟩ := Option.map_eq_some_iff.mp hfirst.symm
      exact ⟨n, hn, MonadWalk.mem_heads.mpr ⟨o, hkind ▸ hmem⟩⟩
  · rintro ⟨n, hn, hk⟩
    obtain ⟨texts, rest, hs⟩ := Node.skipComments_of_next? hn
    obtain ⟨o, hmem⟩ := MonadWalk.mem_heads.mp hk
    have hone : [n.kind] ∈ options := h.closed _ hmem [n.kind]
      (List.cons_prefix_cons.mpr ⟨rfl, List.nil_prefix⟩) (List.cons_ne_nil _ _)
    refine ⟨[n.kind], hone, ?_⟩
    rw [Node.siblings_eq_cons hs]
    exact List.cons_prefix_cons.mpr ⟨rfl, List.nil_prefix⟩

/-- **The longest option is taken.** The operators that begin with `>` and those that begin with `<`
hold their beginnings. For all options that do, in front of siblings that are childless up to the
first that does not continue an option: if the siblings begin with none of the options, `multiMatch`
fails and changes nothing; otherwise it gives the text of the longest option they begin with, and
the walk goes past as many siblings as that option has tokens. -/
theorem multiMatch_longest :
    (PrefixClosed Grammar.greaterOperators ∧ PrefixClosed Grammar.lessOperators) ∧
    ∀ (options : List (List String)) (w : Walk) (s : S), PrefixClosed options →
      Childless options (Node.siblings w.top.left) →
      ((¬ ∃ o ∈ options, o <+: (Node.siblings w.top.left).map Node.kind) →
        (MonadWalk.multiMatch options : WalkT (StateM S) (Option String)).run.run w s =
          ((.error (Node.mismatch w.top.parent w.top.left (options.filterMap List.head?)), w), s)) ∧
      ((∃ o ∈ options, o <+: (Node.siblings w.top.left).map Node.kind) →
        ∃ o, Longest options ((Node.siblings w.top.left).map Node.kind) o ∧
          (MonadWalk.multiMatch options : WalkT (StateM S) (Option String)).run.run w s =
            ((.ok (some (String.join o)), w.past o.length), s)) := by
  refine ⟨⟨prefixClosed_greaterOperators, prefixClosed_lessOperators⟩, ?_⟩
  intro options w s hclosed hleaf
  rw [hclosed.exists_prefix_iff, MonadWalk.multiMatch]
  constructor
  · intro hno
    exact WalkT.multiMatchFrom_fail hclosed.nonempty hclosed.tokens fun n hn hk => hno ⟨n, hn, hk⟩
  · rintro ⟨n, hn, hk⟩
    obtain ⟨o, ho, hrun⟩ := WalkT.takesLongest_of_next options none w s hn hk hclosed.closed hleaf
    exact ⟨o, ho, by rw [hrun, Option.getD_none, String.empty_append]⟩

/-- A walk in front of `> > = x`, with a comment between the tokens and a child in the last one. -/
def shifted : Walk :=
  ⟨⟨Node.aboveRoot, []⟩, [⟨"shift", [⟨">", none, []⟩, ⟨"line_comment", some "// a", []⟩,
    ⟨">", none, []⟩, ⟨"=", none, []⟩, ⟨"x", none, [⟨"y", none, []⟩]⟩]⟩], []⟩

theorem childless_shifted : Childless Grammar.greaterOperators (Node.siblings shifted.top.left) :=
  childless_cons.mpr ⟨fun _ => rfl, childless_cons.mpr ⟨fun _ => rfl, childless_cons.mpr
    ⟨fun _ => rfl, childless_cons.mpr ⟨fun h => absurd h (by decide), childless_nil⟩⟩⟩⟩

theorem multiMatch_longest_shifted :
    (MonadWalk.multiMatch Grammar.greaterOperators : WalkT (StateM Unit) (Option String)).run.run
      shifted () = ((.ok (some ">>="), shifted.past 3), ()) ∧
    (MonadWalk.multiMatch Grammar.lessOperators : WalkT (StateM Unit) (Option String)).run.run
      shifted () = ((.error (.mismatch "shift" ">" ["<", "<", "<", "<"]), shifted), ()) := by
  obtain ⟨⟨hgreater, hless⟩, h⟩ := multiMatch_longest (S := Unit)
  constructor
  · have hthree : [">", ">", "="] <+: (Node.siblings shifted.top.left).map Node.kind := ⟨["x"], rfl⟩
    obtain ⟨o, ho, hrun⟩ :=
      (h _ shifted () hgreater childless_shifted).2 ⟨_, by decide, hthree⟩
    have hlength : 3 ≤ o.length := ho.longest _ (by decide) hthree
    have honly : ∀ o ∈ Grammar.greaterOperators, o <+: [">", ">", "=", "x"] → 3 ≤ o.length →
        o = [">", ">", "="] := by decide
    rw [honly o ho.mem ho.begins hlength] at hrun
    exact hrun
  · have hleaf : Childless Grammar.lessOperators (Node.siblings shifted.top.left) :=
      childless_cons.mpr ⟨fun hk => absurd hk (by decide), childless_of_no_option⟩
    exact (h _ shifted () hless hleaf).1 (by decide)

end Rubify
