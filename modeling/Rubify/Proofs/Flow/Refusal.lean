import Rubify.Proofs.Flow.Breaks

/-!
# When normalising fails

`normalize` refuses a body because of one of its switches: a branch of the switch has been closed
already, or two of its branches hold a default label (`FlowError.AppliesTo`). It goes through
statements in two ways, `normalize` and `collect`, and through the groups of a switch in a third; an
error met anywhere on the way comes out.

* `switch_of_normalize_error`: the error tells what is wrong with some switch of the body;
* `not_appliesTo_of_normalize`: nothing is wrong with the switches of a body that is normalised.

Headline: **`normalize_error_iff`**.
-/

namespace Rubify.Flow

/-- What is wrong with a switch that is refused with the error. -/
def FlowError.AppliesTo : FlowError → List (Branch Stmt) → Prop
  | .closedBranch, branches => ∃ b ∈ branches, b.closed = true
  | .secondDefault, branches => 2 ≤ branches.countP Branch.isDefault

/-- Two steps fail iff the first does, or the second does on its result. -/
theorem bind_eq_error {ε α β : Type} {x : Except ε α} {f : α → Except ε β} {e : ε} :
    (x >>= f) = .error e ↔ x = .error e ∨ ∃ a, x = .ok a ∧ f a = .error e := by
  cases x with
  | error e' => simp [bind, Except.bind]
  | ok a => simp [bind, Except.bind]

variable {mode : ClosureMode} {e : FlowError}

/-! ## Where an error comes from -/

/-- Collecting groups fails at a closed branch, at a default label when one has been met, or inside
a group. -/
theorem collectGroups_error : ∀ {branches : List (Branch Stmt)} {seen : Bool},
    collectGroups mode seen branches = .error e →
      (e = .closedBranch ∧ ∃ b ∈ branches, b.closed = true) ∨
      (e = .secondDefault ∧ 2 ≤ branches.countP Branch.isDefault + seen.toNat) ∨
      ∃ b ∈ branches, normalize mode b.body = .error e
  | [], seen, h => by cases h
  | b :: rest, seen, h => by
    rw [collectGroups_cons] at h
    split at h
    · rename_i hclosed
      cases h
      exact Or.inl ⟨rfl, b, List.mem_cons_self, hclosed⟩
    split at h
    · rename_i hd
      cases h
      rw [Bool.and_eq_true] at hd
      refine Or.inr (Or.inl ⟨rfl, ?_⟩)
      rw [List.countP_cons_of_pos hd.1, hd.2, Bool.toNat_true]
      omega
    rcases bind_eq_error.mp h with hbody | ⟨_, -, h⟩
    · exact Or.inr (Or.inr ⟨b, List.mem_cons_self, hbody⟩)
    rcases bind_eq_error.mp h with hrest | ⟨_, -, h⟩
    · rcases collectGroups_error hrest with ⟨he, b, hb, hc⟩ | ⟨he, hcount⟩ | ⟨b, hb, hn⟩
      · exact Or.inl ⟨he, b, List.mem_cons_of_mem _ hb, hc⟩
      · refine Or.inr (Or.inl ⟨he, ?_⟩)
        -- the default of this branch, or one before it, is what the rest has seen
        rw [List.countP_cons]
        cases hd : b.isDefault with
        | false =>
          rw [hd, Bool.or_false] at hcount
          exact hcount
        | true =>
          rw [hd, Bool.or_true, Bool.toNat_true] at hcount
          rw [if_pos rfl]
          omega
      · exact Or.inr (Or.inr ⟨b, List.mem_cons_of_mem _ hb, hn⟩)
    · cases h

/-- A statement is a switch that is refused, or one of the bodies inside it fails. -/
theorem Stmt.normalize_error {s : Stmt} (h : s.normalize mode = .error e) :
    (∃ value branches, s = .case value branches ∧ e.AppliesTo branches) ∨
      ∃ b ∈ s.bodies, Flow.normalize mode b = .error e := by
  cases s with
  | comment text => cases h
  | other text => cases h
  | leave label => cases h
  | «return» value => cases h
  | raise value => cases h
  | block body | loop condition body | labeled label body =>
    rcases bind_eq_error.mp h with h | ⟨_, -, h⟩
    · exact Or.inr ⟨body, List.mem_singleton.mpr rfl, h⟩
    · cases h
  | ifThen condition thenBranch elseBranch =>
    rcases bind_eq_error.mp h with h | ⟨_, -, h⟩
    · exact Or.inr ⟨thenBranch, List.mem_cons_self, h⟩
    rcases bind_eq_error.mp h with h | ⟨_, -, h⟩
    · cases elseBranch with
      | none => cases h
      | some elseBody =>
        rcases bind_eq_error.mp h with h | ⟨_, -, h⟩
        · exact Or.inr ⟨elseBody, List.mem_cons_of_mem _ (List.mem_singleton.mpr rfl), h⟩
        · cases h
    · cases h
  | case value branches =>
    rw [Stmt.normalize_case] at h
    rcases bind_eq_error.mp h with h | ⟨_, -, h⟩
    · rcases collectGroups_error h with ⟨rfl, hclosed⟩ | ⟨rfl, hcount⟩ | ⟨b, hb, hn⟩
      · exact Or.inl ⟨value, branches, rfl, hclosed⟩
      · exact Or.inl ⟨value, branches, rfl, hcount⟩
      · exact Or.inr ⟨b.body, List.mem_map.mpr ⟨b, hb, rfl⟩, hn⟩
    · cases h

/-- **The error of a body tells what is wrong with one of its switches.** -/
theorem switch_of_normalize_error (body : List Stmt) : normalize mode body = .error e →
    ∃ value branches, OccursVia Anywhere (.case value branches) body ∧ e.AppliesTo branches := by
  induction body using body_induction with
  | nil => exact fun h => by cases h
  | cons s rest ihs ih =>
    intro h
    rcases bind_eq_error.mp h with hs | ⟨_, -, h⟩
    · rcases Stmt.normalize_error hs with ⟨value, branches, rfl, ha⟩ | ⟨b, hb, hn⟩
      · exact ⟨value, branches, .here List.mem_cons_self, ha⟩
      · obtain ⟨value, branches, ho, ha⟩ := ihs b hb hn
        exact ⟨value, branches, .inside List.mem_cons_self hb trivial ho, ha⟩
    rcases bind_eq_error.mp h with hrest | ⟨_, -, h⟩
    · obtain ⟨value, branches, ho, ha⟩ := ih hrest
      exact ⟨value, branches, occursVia_cons.mpr (Or.inr (Or.inr ho)), ha⟩
    · cases h

/-! ## Bodies that are normalised -/

/-- Every body inside a statement that is normalised is normalised. -/
theorem Stmt.Normalized.exists_normalize {s s' : Stmt} (h : s.Normalized mode s') :
    ∀ b ∈ s.bodies, ∃ out, Flow.normalize mode b = .ok out := by
  intro b hb
  by_cases hcase : s.isCase = true
  · cases h with
    | case hg =>
      obtain ⟨c, hc, rfl⟩ := List.mem_map.mp hb
      obtain ⟨g, others, -, hcol⟩ := exists_collected_suffix (collectGroups_collected hg) hc
      obtain ⟨out, hn, -⟩ := hcol.body
      exact ⟨out, hn⟩
    | plain _ hcase' => rw [hcase'] at hcase; cases hcase
    | _ => cases hcase
  · obtain ⟨out, -, hn⟩ := h.exists_body (Bool.eq_false_iff.mpr hcase) b hb
    exact ⟨out, hn⟩

theorem countP_le_one_of_pairwise {α : Type} {p : α → Bool} {xs : List α}
    (h : xs.Pairwise fun x y => p x = true → p y = false) : xs.countP p ≤ 1 := by
  induction xs with
  | nil => exact Nat.zero_le 1
  | cons x xs ih =>
    obtain ⟨hx, hxs⟩ := List.pairwise_cons.mp h
    by_cases hp : p x = true
    · have hnone : xs.countP p = 0 := by
        rw [List.countP_eq_zero]
        intro y hy
        rw [hx y hy hp]
        exact Bool.false_ne_true
      exact Nat.le_of_eq (by rw [List.countP_cons_of_pos hp, hnone])
    · rw [List.countP_cons_of_neg hp]
      exact ih hxs

/-- Nothing is wrong with a switch whose groups are collected. -/
theorem not_appliesTo_of_collectGroups {branches : List (Branch Stmt)} {groups : List Group}
    (h : collectGroups mode false branches = .ok groups) : ¬ e.AppliesTo branches := by
  have hg := collectGroups_collected h
  cases e with
  | closedBranch =>
    rintro ⟨b, hb, hclosed⟩
    obtain ⟨g, rest, -, hcol⟩ := exists_collected_suffix hg hb
    exact Bool.false_ne_true (hcol.wasOpen.symm.trans hclosed)
  | secondDefault =>
    intro hcount
    have hlabels : branches.countP Branch.isDefault =
        (branches.map Branch.labels).countP (·.contains .otherwise) := by
      rw [List.countP_map]
      rfl
    have hpair : (groups.map Group.labels).Pairwise fun l l' =>
        l.contains CaseLabel.otherwise = true → l'.contains CaseLabel.otherwise = false := by
      rw [List.pairwise_map]
      refine (collectGroups_default h).2.imp fun hno hd => ?_
      simpa using hno (List.contains_iff_mem.mp hd)
    rw [FlowError.AppliesTo, hlabels, ← forall₂_labels hg] at hcount
    have := countP_le_one_of_pairwise hpair
    omega

/-- **Nothing is wrong with the switches of a body that is normalised**, at any depth. -/
theorem not_appliesTo_of_normalize {value : String} {branches : List (Branch Stmt)}
    (body : List Stmt) : ∀ {out : List Stmt}, normalize mode body = .ok out →
      OccursVia Anywhere (.case value branches) body → ¬ e.AppliesTo branches := by
  induction body using body_induction with
  | nil => exact fun _ ho => absurd ho not_occursVia_nil
  | cons s rest ihs ih =>
    intro out h ho
    obtain ⟨s', rest', hs, hr, rfl⟩ := normalize_cons h
    have hn := Stmt.normalized_of_normalize hs
    rcases occursVia_cons.mp ho with rfl | ⟨b, hb, -, hob⟩ | hor
    · cases hn with
      | plain _ hcase => cases hcase
      | case hg => exact not_appliesTo_of_collectGroups hg
    · obtain ⟨out, hnb⟩ := hn.exists_normalize b hb
      exact ihs b hb hnb hob
    · exact ih hr hor

/-! ## The condition -/

/-- **When normalising fails**: iff some switch of the body, at any depth, has a branch that is
closed, or two branches with a default label; otherwise the body is normalised. The error is one
that applies to such a switch. -/
theorem normalize_error_iff (mode : ClosureMode) (body : List Stmt) :
    ((∃ e, normalize mode body = .error e) ↔
      ∃ value branches, OccursVia Anywhere (.case value branches) body ∧
        ((∃ b ∈ branches, b.closed = true) ∨ 2 ≤ branches.countP Branch.isDefault)) ∧
    ((∃ out, normalize mode body = .ok out) ↔
      ∀ value branches, OccursVia Anywhere (.case value branches) body →
        (∀ b ∈ branches, b.closed = false) ∧ branches.countP Branch.isDefault ≤ 1) ∧
    ∀ e, normalize mode body = .error e →
      ∃ value branches, OccursVia Anywhere (.case value branches) body ∧ e.AppliesTo branches := by
  have wrong : ∀ {branches : List (Branch Stmt)}, (∃ e : FlowError, e.AppliesTo branches) ↔
      (∃ b ∈ branches, b.closed = true) ∨ 2 ≤ branches.countP Branch.isDefault := by
    intro branches
    constructor
    · rintro ⟨_ | _, ha⟩
      · exact Or.inl ha
      · exact Or.inr ha
    · rintro (ha | ha)
      · exact ⟨.closedBranch, ha⟩
      · exact ⟨.secondDefault, ha⟩
  refine ⟨⟨?_, ?_⟩, ⟨?_, ?_⟩, fun e h => switch_of_normalize_error body h⟩
  · rintro ⟨e, h⟩
    obtain ⟨value, branches, ho, ha⟩ := switch_of_normalize_error body h
    exact ⟨value, branches, ho, wrong.mp ⟨e, ha⟩⟩
  · rintro ⟨value, branches, ho, hw⟩
    obtain ⟨e, ha⟩ := wrong.mpr hw
    cases h : normalize mode body with
    | error e' => exact ⟨e', rfl⟩
    | ok out => exact absurd ha (not_appliesTo_of_normalize body h ho)
  · rintro ⟨out, h⟩ value branches ho
    have hno : ¬ ((∃ b ∈ branches, b.closed = true) ∨ 2 ≤ branches.countP Branch.isDefault) := by
      rw [← wrong]
      rintro ⟨e, ha⟩
      exact not_appliesTo_of_normalize body h ho ha
    refine ⟨fun b hb => ?_, ?_⟩
    · by_contra hc
      exact hno (Or.inl ⟨b, hb, (Bool.not_eq_false _).mp hc⟩)
    · have := fun hc => hno (Or.inr hc)
      omega
  · intro hall
    cases h : normalize mode body with
    | ok out => exact ⟨out, rfl⟩
    | error e =>
      obtain ⟨value, branches, ho, ha⟩ := switch_of_normalize_error body h
      obtain ⟨hopen, hcount⟩ := hall value branches ho
      rcases wrong.mp ⟨e, ha⟩ with ⟨b, hb, hc⟩ | hc
      · exact absurd ((hopen b hb).symm.trans hc) Bool.false_ne_true
      · omega

end Rubify.Flow
