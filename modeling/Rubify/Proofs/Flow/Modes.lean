import Rubify.Proofs.Flow.Collect

/-!
# Where the closure modes agree

The mode decides whether an `if` without `else` closes. Normalising asks this of the groups of
switches only, and of each group as a whole: what `collect` finds out about the ends inside a group
goes into its verdict and nowhere else. So the modes may disagree on any `if`, as long as they agree
on every group.

Headline: **`normalize_modes_agree`**.
-/

namespace Rubify.Flow

/-- The modes agree on every group of every switch of the body, at any depth. -/
def ModesAgree (body : List Stmt) : Prop :=
  ∀ value branches, OccursVia Anywhere (.case value branches) body →
    ∀ b ∈ branches, closes .compatible b.body = closes .strict b.body

theorem ModesAgree.rest {s : Stmt} {rest : List Stmt} (h : ModesAgree (s :: rest)) :
    ModesAgree rest :=
  fun value branches ho => h value branches (occursVia_cons.mpr (Or.inr (Or.inr ho)))

theorem ModesAgree.inside {s : Stmt} {rest b : List Stmt} (h : ModesAgree (s :: rest))
    (hb : b ∈ s.bodies) : ModesAgree b :=
  fun value branches ho => h value branches (.inside List.mem_cons_self hb trivial ho)

theorem ModesAgree.groups {value : String} {branches : List (Branch Stmt)} {rest : List Stmt}
    (h : ModesAgree (.case value branches :: rest)) :
    ∀ b ∈ branches, closes .compatible b.body = closes .strict b.body :=
  h value branches (.here List.mem_cons_self)

/-- Groups are collected alike if the modes agree on their bodies and normalise them alike. -/
theorem collectGroups_modes {branches : List (Branch Stmt)}
    (hc : ∀ b ∈ branches, closes .compatible b.body = closes .strict b.body)
    (hn : ∀ b ∈ branches, normalize .compatible b.body = normalize .strict b.body) :
    ∀ seen, collectGroups .compatible seen branches = collectGroups .strict seen branches := by
  induction branches with
  | nil => exact fun _ => rfl
  | cons b rest ih =>
    intro seen
    obtain ⟨hcb, hcrest⟩ := List.forall_mem_cons.mp hc
    obtain ⟨hnb, hnrest⟩ := List.forall_mem_cons.mp hn
    rw [collectGroups_cons, collectGroups_cons, hcb, hnb, ih hcrest hnrest]

/-- One statement is normalised alike if the bodies inside it are. -/
theorem Stmt.normalize_modes {s : Stmt} {rest : List Stmt} (h : ModesAgree (s :: rest))
    (hb : ∀ b ∈ s.bodies, Flow.normalize .compatible b = Flow.normalize .strict b) :
    s.normalize .compatible = s.normalize .strict := by
  cases s with
  | block body | loop condition body | labeled label body =>
    rw [Stmt.normalize, Stmt.normalize, hb body List.mem_cons_self]
  | ifThen condition thenBranch elseBranch =>
    rw [Stmt.normalize, Stmt.normalize, hb thenBranch List.mem_cons_self]
    cases elseBranch with
    | none => rfl
    | some elseBody =>
      rw [elseNormalize, elseNormalize, hb elseBody (List.mem_cons_of_mem _ List.mem_cons_self)]
  | case value branches =>
    have hgroups := collectGroups_modes h.groups
      (fun b hbranch => hb b.body (List.mem_map.mpr ⟨b, hbranch, rfl⟩)) false
    rw [Stmt.normalize_case, Stmt.normalize_case, hgroups]
  | _ => rfl

/-- **The modes agree unless an `if` without `else` decides a switch group.** If the same groups
close in both modes, for every switch at any depth, a body is normalised to the same statements or
refused with the same error. -/
theorem normalize_modes_agree {body : List Stmt} (h : ModesAgree body) :
    normalize .compatible body = normalize .strict body := by
  induction body using body_induction with
  | nil => rfl
  | cons s rest ihs ih =>
    have hs := Stmt.normalize_modes h fun b hb => ihs b hb (h.inside hb)
    rw [normalize, normalize, hs, ih h.rest]

/-- A switch whose first group ends in an `if` with a branch that ends in an `if` without `else`. -/
def halfOpen : List Stmt :=
  [.case "v"
    [⟨[.value "1"], false, [.ifThen "x" [.ifThen "y" [.leave none] none] (some [.other "a"])]⟩,
      ⟨[.otherwise], false, [.other "b"]⟩]]

theorem modesAgree_halfOpen : ModesAgree halfOpen := by
  intro value branches ho b hb
  rcases occursVia_cons.mp ho with he | ⟨body, hbody, -, ho⟩ | ho
  · cases he
    simp only [List.mem_cons, List.not_mem_nil, or_false] at hb
    rcases hb with rfl | rfl <;> rfl
  · simp only [Stmt.bodies, List.map_cons, List.map_nil, List.mem_cons, List.not_mem_nil,
      or_false] at hbody
    rcases hbody with rfl | rfl <;> simp [occursVia_cons, not_occursVia_nil, Stmt.bodies] at ho
  · exact absurd ho not_occursVia_nil

/-- The inner `if` closes in one mode only, the group in neither. -/
theorem normalize_modes_agree_halfOpen :
    closes .compatible [.ifThen "y" [.leave none] none] = true ∧
    closes .strict [.ifThen "y" [.leave none] none] = false ∧
    ModesAgree halfOpen ∧ normalize .compatible halfOpen = normalize .strict halfOpen :=
  ⟨rfl, rfl, modesAgree_halfOpen, normalize_modes_agree modesAgree_halfOpen⟩

end Rubify.Flow
