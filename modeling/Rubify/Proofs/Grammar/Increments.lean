import Rubify.Convert
import Rubify.Phrase.Declaration
import Rubify.Phrase.Statement
import Rubify.Proofs.Grammar.Shape

/-!
# Increments whose value is used

The target has no operator that increments a variable and gives its old value. An increment is
therefore accepted as a whole expression only, and written as an assignment; one inside a larger
expression is refused. Here this is said of whole trees.

`Node.used` lists the expressions of a tree whose value is used: initial values, what is returned or
thrown, conditions, switch values and case labels, arguments of constructors and enum constants. The
arguments of calls stand inside an expression (`Node.Passes`).

Headlines:
* **`convert_used_steps`**: in a tree that is converted, an expression whose value is used ends in
  an increment only if it is an increment as a whole, and an argument of a call never does. A tree
  that has an increment at another such place, and otherwise the shape of the grammar, is refused as
  unsupported.
* **`convert_returned_step`**: an increment as a whole is accepted also where its value is used.
-/

namespace Rubify

/-! ## Tokens with increments -/

namespace Syntax

/-- The tokens are something assignable with an increment or decrement in front. -/
def IsPrefixStep (tokens : List String) : Prop :=
  ∃ op target, tokens = op :: target ∧ isStep op = true ∧ isAssignable target = true

/-- The tokens are something assignable with an increment or decrement behind. -/
def IsPostfixStep (tokens : List String) : Prop :=
  ∃ target op, tokens = target ++ [op] ∧ isStep op = true ∧ isAssignable target = true

/-- The tokens hold no increment or are one as a whole. -/
def StepsWhole (tokens : List String) : Prop :=
  (∀ token ∈ tokens, isStep token = false) ∨ IsPrefixStep tokens ∨ IsPostfixStep tokens

/-- The last token is an increment or decrement. -/
def EndsInStep (tokens : List String) : Prop :=
  ∃ front op, tokens = front ++ [op] ∧ isStep op = true

theorem isSome_splitStep?_iff {tokens : List String} :
    (splitStep? tokens).isSome = true ↔ IsPrefixStep tokens ∨ IsPostfixStep tokens := by
  constructor
  · intro h
    obtain ⟨⟨op, target⟩, hsplit⟩ := Option.isSome_iff_exists.mp h
    obtain ⟨hop, htarget, heq | heq⟩ := splitStep?_eq_some hsplit
    · exact Or.inl ⟨op, target, heq, hop, htarget⟩
    · exact Or.inr ⟨target, op, heq, hop, htarget⟩
  · rw [splitStep?, Option.isSome_or, Bool.or_eq_true]
    rintro (⟨op, target, rfl, hop, htarget⟩ | ⟨target, op, rfl, hop, htarget⟩)
    · exact Or.inl (by simp [stepBefore?, hop, htarget])
    · exact Or.inr (by simp [stepAfter?, hop, htarget])

/-- No increment stands inside tokens iff their increments are whole. -/
theorem innerStep?_eq_none_iff {tokens : List String} :
    innerStep? tokens = none ↔ StepsWhole tokens := by
  rw [innerStep?, StepsWhole, ← isSome_splitStep?_iff]
  split
  · rename_i hsplit
    exact iff_of_true rfl (Or.inr hsplit)
  · rename_i hsplit
    rw [List.find?_eq_none]
    simp [hsplit]

/-- **Tokens make an expression iff their increments are whole.** -/
theorem ofTokens_eq_ok_iff {tokens : List String} :
    (∃ e, Expr.ofTokens tokens = .ok e) ↔ StepsWhole tokens := by
  rw [← innerStep?_eq_none_iff]
  cases h : innerStep? tokens with
  | none => exact iff_of_true ⟨_, Expr.ofTokens_whole h⟩ rfl
  | some op =>
    rw [Expr.ofTokens_of_innerStep? h]
    exact iff_of_false (by rintro ⟨_, ⟨⟩⟩) (by rintro ⟨⟩)

/-- What tokens are refused for is one of them. -/
theorem isStep_of_ofTokens_error {tokens : List String} {op : String}
    (h : Expr.ofTokens tokens = .error op) : op ∈ tokens ∧ isStep op = true := by
  cases hinner : innerStep? tokens with
  | none =>
    rw [Expr.ofTokens_whole hinner] at h
    cases h
  | some inner =>
    rw [Expr.ofTokens_of_innerStep? hinner] at h
    cases h
    unfold innerStep? at hinner
    split at hinner
    · cases hinner
    · exact ⟨List.mem_of_find?_eq_some hinner, List.find?_some hinner⟩

/-- An increment at the end of whole ones is the whole. -/
theorem StepsWhole.isPostfixStep {tokens : List String} (h : StepsWhole tokens)
    (hend : EndsInStep tokens) : IsPostfixStep tokens := by
  obtain ⟨front, op, rfl, hop⟩ := hend
  have hlast : op ∈ front ++ [op] := List.mem_append_right front (List.mem_singleton.mpr rfl)
  rcases h with hnone | ⟨first, target, heq, -, htarget⟩ | hpost
  · exact absurd ((hnone op hlast).symm.trans hop) Bool.false_ne_true
  · -- what is incremented from the front ends in no increment
    cases front with
    | nil =>
      cases heq
      cases htarget
    | cons t front =>
      cases heq
      have := not_isStep_of_scanPath htarget op (List.mem_append_right front (by simp))
      exact absurd (this.symm.trans hop) Bool.false_ne_true
  · exact hpost

/-- No increment stands between other tokens. -/
theorem StepsWhole.not_isStep_inside {pre ys post : List String}
    (h : StepsWhole (pre ++ ys ++ post)) (hpre : pre ≠ []) (hpost : post ≠ []) :
    ∀ y ∈ ys, isStep y = false := by
  intro y hy
  rcases h with hnone | ⟨op, target, heq, -, htarget⟩ | ⟨target, op, heq, -, htarget⟩
  · exact hnone y (by simp [hy])
  · obtain ⟨t, pre, rfl⟩ := List.exists_cons_of_ne_nil hpre
    cases heq
    exact not_isStep_of_scanPath htarget y (by simp [hy])
  · obtain ⟨post, t, rfl⟩ := (List.eq_nil_or_concat post).resolve_left hpost
    rw [List.concat_eq_append, ← List.append_assoc] at heq
    obtain ⟨rfl, -⟩ := List.append_inj' heq rfl
    exact not_isStep_of_scanPath htarget y (by simp [hy])

end Syntax

/-! ## Expressions whose value is used -/

namespace Node

open Syntax

/-- The kinds of nodes that hold an expression for its value: initial values, `return` and `throw`,
conditions and switch values, case labels, arguments. -/
def valueHolders : List String :=
  ["variableInitializer", "statement", "parExpression", "switchLabel", "expressionList"]

mutual

/-- The expressions of the tree whose value is used, those inside others and in comments left
out. -/
def used : Node → List Node
  | ⟨kind, payload, children⟩ =>
    if isComment ⟨kind, payload, children⟩ then []
    else if kind = "expression" then []
    else usedAll (valueHolders.contains kind) children

/-- The same for the children of a node, which may hold expressions for their value. -/
def usedAll (held : Bool) : List Node → List Node
  | [] => []
  | n :: rest => (if held && n.kind = "expression" then [n] else n.used) ++ usedAll held rest

end

mutual

/-- What is used is among the expressions of the tree. -/
theorem used_subset (c : Node) : c.used ⊆ c.expressions := by
  obtain ⟨kind, payload, children⟩ := c
  rw [used, expressions]
  split
  · exact List.Subset.refl _
  · split
    · exact List.nil_subset _
    · exact usedAll_subset (valueHolders.contains kind) children

theorem usedAll_subset (held : Bool) (l : List Node) : usedAll held l ⊆ expressionsAll l := by
  cases l with
  | nil => exact List.Subset.refl _
  | cons n rest =>
    rw [usedAll, expressionsAll]
    have hrest := usedAll_subset held rest
    refine List.append_subset.mpr ⟨List.subset_append_of_subset_left _ ?_,
      List.subset_append_of_subset_right _ hrest⟩
    split
    · rename_i h
      rw [expressions_of_expression (of_decide_eq_true (Bool.and_eq_true_iff.mp h).2)]
      exact List.Subset.refl _
    · exact used_subset n

end

/-- The tokens of an expression that can be read hold whole increments only. -/
theorem Reads.stepsWhole {x : Node} {tokens : List String} (h : x.Reads) (hx : x.Spells tokens) :
    StepsWhole tokens := by
  obtain ⟨tokens', e, hspells, he⟩ := h
  cases hx.unique hspells
  exact ofTokens_eq_ok_iff.mp ⟨e, he⟩

/-- An argument of a call inside an expression that can be read holds no increment at its end. -/
theorem Passes.not_endsInStep {x y : Node} {tokens : List String} (h : x.Passes y) (hx : x.Reads)
    (hy : y.Spells tokens) : ¬ EndsInStep tokens := by
  rintro ⟨front, op, rfl, hop⟩
  obtain ⟨whole, e, hspells, -⟩ := id hx
  obtain ⟨pre, post, rfl, hpre, hpost⟩ := h.exists_append hspells hy (by simp)
  have := (hx.stepsWhole hspells).not_isStep_inside hpre hpost op (by simp)
  exact absurd (this.symm.trans hop) Bool.false_ne_true

end Node

/-! ## Trees with increments -/

section

open Syntax Program

variable {tree tree' : Node}

/-- A tree that is converted has been read. -/
theorem exists_ofTree_of_convert {s : Settings} {out : String} (h : convert s tree = .ok out) :
    ∃ g, Graph.ofTree .ruby tree = .ok g := by
  cases hg : Graph.ofTree .ruby tree with
  | ok g => exact ⟨g, rfl⟩
  | error e =>
    rw [convert, hg] at h
    cases h

theorem convert_of_ofTree_error {s : Settings} {e : BuildError}
    (h : Graph.ofTree .ruby tree = .error e) : convert s tree = .error (.build e) := by
  rw [convert, h]
  rfl

theorem exists_readUnit_of_ofTree {g : Graph} (h : Graph.ofTree .ruby tree = .ok g) :
    ∃ u, Grammar.readUnit .ruby tree = .ok u := by
  cases hu : Grammar.readUnit .ruby tree with
  | ok u => exact ⟨u, rfl⟩
  | error e =>
    rw [Graph.ofTree, hu] at h
    cases h

/-- A tree whose expressions have tokens is read like an alike one, or fails with the error of one
of its expressions. -/
theorem ofTree_of_alike {g' : Graph} (h' : Graph.ofTree .ruby tree' = .ok g')
    (ha : tree.Alike tree') (hs : ∀ x ∈ tree.expressions, ∃ tokens, x.Spells tokens) :
    (∃ g, Graph.ofTree .ruby tree = .ok g ∧ ∀ x ∈ tree.expressions, x.Reads) ∨
      ∃ x ∈ tree.expressions, ∃ tokens op, x.Spells tokens ∧ Expr.ofTokens tokens = .error op ∧
        Graph.ofTree .ruby tree = .error (.stepInside op tokens) := by
  obtain ⟨u', hu'⟩ := exists_readUnit_of_ofTree h'
  rcases Grammar.readUnit_of_alike ha hu' with ⟨u, hu, hreads⟩ | ⟨e, he, read, x, more, heq, -, hx⟩
  · exact Or.inl ⟨Graph.ofUnit .ruby u, by rw [Graph.ofTree, hu]; rfl, hreads⟩
  · have hmem : x ∈ tree.expressions := by
      rw [← Node.expressionsAll_singleton, heq]
      exact List.mem_append_right read List.mem_cons_self
    rcases hx with hnone | ⟨tokens, op, hspells, hop, rfl⟩
    · obtain ⟨tokens, hspells⟩ := hs x hmem
      exact absurd hspells (hnone tokens)
    · exact Or.inr ⟨x, hmem, tokens, op, hspells, hop, by rw [Graph.ofTree, he]; rfl⟩

/-- The expressions of a tree that is read can be read. -/
theorem reads_of_ofTree {g : Graph} (h : Graph.ofTree .ruby tree = .ok g) :
    ∀ x ∈ tree.expressions, x.Reads := by
  obtain ⟨u, hu⟩ := exists_readUnit_of_ofTree h
  rcases Grammar.readUnit_of_alike (.refl tree) hu with ⟨-, -, hreads⟩ | ⟨e, he, -⟩
  · exact hreads
  · rw [hu] at he
    cases he

/-- **Where increments are accepted.** In a tree that is converted, an expression whose value is
used ends in an increment only if it is one as a whole, and an argument of a call inside an
expression never does.

Take a tree whose expressions have tokens and which, expressions aside, has the shape of one that is
read. It is read iff all increments in it are whole expressions. If one stands at the end of an
expression whose value is used and is not the whole, or at the end of an argument of a call, then
the tree is not converted, and the error names an increment inside an expression as unsupported. -/
theorem convert_used_steps (s : Settings) (tree : Node) :
    (∀ out, convert s tree = .ok out →
      (∀ x ∈ tree.used, ∃ tokens, x.Spells tokens ∧ (EndsInStep tokens → IsPostfixStep tokens)) ∧
      ∀ x ∈ tree.expressions, ∀ y tokens, x.Passes y → y.Spells tokens → ¬ EndsInStep tokens) ∧
    ∀ (tree' : Node) (g' : Graph), Graph.ofTree .ruby tree' = .ok g' → tree.Alike tree' →
      (∀ x ∈ tree.expressions, ∃ tokens, x.Spells tokens) →
      ((∃ g, Graph.ofTree .ruby tree = .ok g) ↔
        ∀ x ∈ tree.expressions, ∀ tokens, x.Spells tokens → StepsWhole tokens) ∧
      ((∃ x ∈ tree.used, ∃ tokens, x.Spells tokens ∧ EndsInStep tokens ∧ ¬ IsPostfixStep tokens) ∨
        (∃ x ∈ tree.expressions, ∃ y tokens, x.Passes y ∧ y.Spells tokens ∧ EndsInStep tokens) →
        ∃ x ∈ tree.expressions, ∃ tokens, ∃ op ∈ tokens, x.Spells tokens ∧ isStep op = true ∧
          convert s tree = .error (.build (.unsupported
            ("`" ++ op ++ "` inside the expression `" ++ " ".intercalate tokens ++ "`")))) := by
  refine ⟨fun out h => ?_, fun tree' g' h' ha hs => ⟨⟨?_, ?_⟩, fun hstep => ?_⟩⟩
  · obtain ⟨g, hg⟩ := exists_ofTree_of_convert h
    have hreads := reads_of_ofTree hg
    refine ⟨fun x hx => ?_, fun x hx y tokens hy hspells =>
      hy.not_endsInStep (hreads x hx) hspells⟩
    obtain ⟨tokens, e, hspells, he⟩ := hreads x (Node.used_subset tree hx)
    exact ⟨tokens, hspells, (ofTokens_eq_ok_iff.mp ⟨e, he⟩).isPostfixStep⟩
  · rintro ⟨g, hg⟩ x hx tokens hspells
    exact (reads_of_ofTree hg x hx).stepsWhole hspells
  · intro hwhole
    rcases ofTree_of_alike h' ha hs with ⟨g, hg, -⟩ | ⟨x, hx, tokens, op, hspells, hop, -⟩
    · exact ⟨g, hg⟩
    · obtain ⟨e, he⟩ := ofTokens_eq_ok_iff.mpr (hwhole x hx tokens hspells)
      rw [he] at hop
      cases hop
  · rcases ofTree_of_alike h' ha hs with ⟨g, -, hreads⟩ | ⟨x, hx, tokens, op, hspells, hop, hg⟩
    · rcases hstep with ⟨x, hx, tokens, hspells, hend, hnot⟩ | ⟨x, hx, y, tokens, hy, hspells, hend⟩
      · have hwhole := (hreads x (Node.used_subset tree hx)).stepsWhole hspells
        exact absurd (hwhole.isPostfixStep hend) hnot
      · exact absurd hend (hy.not_endsInStep (hreads x hx) hspells)
    · obtain ⟨hmem, hstep⟩ := isStep_of_ofTokens_error hop
      exact ⟨x, hx, tokens, op, hmem, hspells, hstep, convert_of_ofTree_error hg⟩

/-! ## A method that returns an increment -/

/-- A class with one method, which returns the expression of the given parts. -/
def returning (parts : List Node) : Node :=
  Phrase.compilationUnit none [] [Phrase.typeDeclaration [] (Phrase.classDeclaration "A" [] none []
    [Phrase.method [] "int" "f" [("int", "i")] (some [Phrase.statement
      [Phrase.token "return", Phrase.node "expression" parts, Phrase.token ";"]])])]

/-- Two such classes differ in an expression only. -/
theorem alike_returning (parts parts' : List Node) :
    (returning parts).Alike (returning parts') := by
  repeat first
    | exact .expression rfl rfl
    | exact .refl _
    | exact .nil
    | refine List.Forall₂.cons ?_ ?_
    | refine .node rfl ?_

/-- The parts of `i++`. -/
def postfixStep : List Node := [Phrase.identifier "i", Phrase.token "++"]

/-- The parts of `1 + i++`. -/
def sumWithStep : List Node := [Phrase.literal "1", Phrase.token "+"] ++ postfixStep

theorem used_returning_postfixStep :
    ∃ x ∈ (returning postfixStep).used, x.Spells ["i", "++"] := by
  decide +kernel

theorem used_returning_sumWithStep :
    ∃ x ∈ (returning sumWithStep).used, x.Spells ["1", "+", "i", "++"] := by
  decide +kernel

theorem spells_of_mem_returning_sumWithStep :
    ∀ x ∈ (returning sumWithStep).expressions, x.Spells ["1", "+", "i", "++"] := by
  decide +kernel

theorem not_isPostfixStep_sumWithStep : ¬ IsPostfixStep ["1", "+", "i", "++"] := by
  rintro ⟨target, op, heq, -, htarget⟩
  have heq : ["1", "+", "i"] ++ ["++"] = target ++ [op] := heq
  obtain ⟨rfl, -⟩ := List.append_inj' heq rfl
  exact absurd htarget (by decide +kernel)

theorem convert_returning_postfixStep :
    (convert {} (returning postfixStep)).toOption =
      some "class A\n  def f(i)\n    return i += 1\n  end\nend\n" := by
  decide +kernel

theorem convert_used_steps_returning :
    (∀ x ∈ (returning postfixStep).used,
      ∃ tokens, x.Spells tokens ∧ (EndsInStep tokens → IsPostfixStep tokens)) ∧
    ∃ x ∈ (returning sumWithStep).expressions, ∃ tokens, ∃ op ∈ tokens, x.Spells tokens ∧
      isStep op = true ∧ convert {} (returning sumWithStep) = .error (.build (.unsupported
        ("`" ++ op ++ "` inside the expression `" ++ " ".intercalate tokens ++ "`"))) := by
  obtain ⟨out, hout⟩ : ∃ out, convert {} (returning postfixStep) = .ok out := by
    have hok := convert_returning_postfixStep
    cases hout : convert {} (returning postfixStep) with
    | ok out => exact ⟨out, rfl⟩
    | error e =>
      rw [hout] at hok
      cases hok
  obtain ⟨g, hg⟩ := exists_ofTree_of_convert hout
  refine ⟨((convert_used_steps {} _).1 _ hout).1, ?_⟩
  refine ((convert_used_steps {} _).2 _ g hg (alike_returning sumWithStep postfixStep) ?_).2 ?_
  · exact fun x hx => ⟨_, spells_of_mem_returning_sumWithStep x hx⟩
  · obtain ⟨x, hx, hspells⟩ := used_returning_sumWithStep
    exact Or.inl ⟨x, hx, _, hspells, ⟨["1", "+", "i"], "++", rfl, rfl⟩,
      not_isPostfixStep_sumWithStep⟩

/-- **An increment is accepted where its value is used**, and written as an assignment: the method
that returns `i++` becomes one that returns the new value. -/
theorem convert_returned_step :
    (convert {} (returning postfixStep)).toOption =
        some "class A\n  def f(i)\n    return i += 1\n  end\nend\n" ∧
      ∃ x ∈ (returning postfixStep).used, ∃ tokens, x.Spells tokens ∧ EndsInStep tokens := by
  obtain ⟨x, hx, hspells⟩ := used_returning_postfixStep
  exact ⟨convert_returning_postfixStep, x, hx, _, hspells, ["i"], "++", rfl, rfl⟩

end

end Rubify
