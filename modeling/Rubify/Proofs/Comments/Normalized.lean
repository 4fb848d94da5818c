import Rubify.Proofs.Comments.Held
import Rubify.Proofs.Flow.NormalForm
import Mathlib.Data.List.Perm.Subperm

/-!
# Normalising keeps comments

A switch group whose statements are reached has them in some branch of the merged switch: in its own
if the group has a label, else in that of the group it is fallen into from. A group without labels that
nothing falls into has no branch, and its comments are gone (`deadTexts`); all others are kept.

Trimming and retargeting move no comment, so the argument is about `merge` alone. It counts the
occurrences of one text `t`.

Headlines:
* **`subperm_commentTexts_normalize`**: every comment is kept, except those that nothing reaches.
* **`mem_commentTexts_of_normalize`**: no comment is made up.
-/

namespace Rubify.Flow

/-! ## What nothing reaches -/

mutual

/-- The comments of a statement in switch groups that nothing reaches. -/
def Stmt.deadTexts (mode : ClosureMode) : Stmt → List String
  | .block body | .loop _ body | .labeled _ body => deadTexts mode body
  | .ifThen _ thenBranch elseBranch => deadTexts mode thenBranch ++ elseDeadTexts mode elseBranch
  | .case _ branches => groupDeadTexts mode false branches
  | .comment _ | .other _ | .leave _ | .return _ | .raise _ => []

/-- The comments of a body in switch groups that nothing reaches. -/
def deadTexts (mode : ClosureMode) : List Stmt → List String
  | [] => []
  | s :: rest => s.deadTexts mode ++ deadTexts mode rest

/-- The comments of an `else` branch in switch groups that nothing reaches. -/
def elseDeadTexts (mode : ClosureMode) : Option (List Stmt) → List String
  | none => []
  | some body => deadTexts mode body

/-- The comments of groups in those that nothing reaches: they have no label, and nothing falls into
them. `entered` says whether something falls into the first. -/
def groupDeadTexts (mode : ClosureMode) (entered : Bool) : List (Branch Stmt) → List String
  | [] => []
  | ⟨labels, _, body⟩ :: rest =>
    if entered || !labels.isEmpty then
      deadTexts mode body ++ groupDeadTexts mode (!closes mode body) rest
    else commentTexts body ++ groupDeadTexts mode false rest

end

/-! ## Rewriting moves no comment -/

theorem commentTexts_retarget (body : List Stmt) : commentTexts (retarget body) = commentTexts body := by
  induction body using body_induction with
  | nil => rfl
  | cons s rest ihs ih =>
    rw [retarget, commentTexts, commentTexts, ih]
    refine congrArg (· ++ _) ?_
    cases s with
    | ifThen condition thenBranch elseBranch =>
      cases elseBranch <;> simp_all [Stmt.retarget, elseRetarget, Stmt.commentTexts, elseCommentTexts,
        Stmt.bodies]
    | leave label => cases label <;> rfl
    | _ => simp_all [Stmt.retarget, Stmt.commentTexts, Stmt.bodies]

theorem commentTexts_trim (body : List Stmt) : commentTexts (trim body) = commentTexts body := by
  induction body using body_induction with
  | nil => rfl
  | cons s rest ihs ih =>
    rw [trim]
    split
    · rw [commentTexts_append, commentTexts]
      refine congrArg (· ++ _) ?_
      cases s with
      | ifThen condition thenBranch elseBranch =>
        cases elseBranch <;> simp_all [Stmt.trim, elseTrim, Stmt.commentTexts, elseCommentTexts,
          commentTexts, Stmt.bodies]
      | leave label => cases label <;> rfl
      | _ => simp_all [Stmt.trim, Stmt.commentTexts, commentTexts, Stmt.bodies]
    · rw [commentTexts, commentTexts, ih]

theorem commentTexts_labelExits (body : List Stmt) :
    commentTexts (labelExits body) = commentTexts body := by
  rw [labelExits]
  split
  · simp [commentTexts, Stmt.commentTexts, commentTexts_retarget]
  · rfl

theorem branchCommentTexts_append (xs ys : List (Branch Stmt)) :
    branchCommentTexts (xs ++ ys) = branchCommentTexts xs ++ branchCommentTexts ys := by
  induction xs with
  | nil => rfl
  | cons b xs ih =>
    rw [List.cons_append, branchCommentTexts, branchCommentTexts, ih, List.append_assoc]

theorem branchCommentTexts_closedBranch (labels : List CaseLabel) (groups : List Group)
    (rest : List (Branch Stmt)) : branchCommentTexts (closedBranch labels groups :: rest) =
      commentTexts (window groups) ++ branchCommentTexts rest := by
  rw [closedBranch, branchCommentTexts, commentTexts_labelExits]

/-- The comments of a collected group are those of its normalised body. -/
theorem Collected.commentTexts_eq {mode : ClosureMode} {b : Branch Stmt} {g : Group}
    (h : Collected mode b g) :
    ∃ out, normalize mode b.body = .ok out ∧ commentTexts g.body = commentTexts out := by
  obtain ⟨out, hn, hbody⟩ := h.body
  refine ⟨out, hn, ?_⟩
  rw [hbody, trimIf]
  split
  · exact commentTexts_trim out
  · rfl

/-! ## Merging -/

/-- The comments of the groups that are reached, given whether something falls into the first. -/
def reachedTexts (entered : Bool) : List Group → List String
  | [] => []
  | g :: rest =>
    if entered || !g.labels.isEmpty then commentTexts g.body ++ reachedTexts (!g.closed) rest
    else reachedTexts false rest

section

variable {t : String} {g : Group} {rest : List Group}

theorem merge_cons_of_unlabelled (h : g.labels = []) : merge (g :: rest) = merge rest := by
  simp [merge, valueBranches, defaultBranch, h, values]

/-- A group with a label adds a branch with its window. -/
theorem count_merge_cons (h : g.labels ≠ [])
    (hpair : ∀ g' ∈ rest, CaseLabel.otherwise ∈ g.labels → CaseLabel.otherwise ∉ g'.labels) :
    (commentTexts (window (g :: rest))).count t + (branchCommentTexts (merge rest)).count t ≤
      (branchCommentTexts (merge (g :: rest))).count t := by
  have hdefault : CaseLabel.otherwise ∈ g.labels → defaultBranch rest = [] := fun ho => by
    rcases defaultBranch_cases rest with ⟨he, -⟩ | ⟨g', others, hs, hd, -⟩
    · exact he
    · exact absurd hd (hpair g' (hs.subset List.mem_cons_self) ho)
  simp only [merge, branchCommentTexts_append, List.count_append]
  rw [valueBranches, defaultBranch]
  by_cases ho : CaseLabel.otherwise ∈ g.labels
  · rw [if_pos (List.contains_iff_mem.mpr ho), branchCommentTexts_closedBranch, hdefault ho]
    split
    · simp only [List.count_append, branchCommentTexts, List.count_nil]
      omega
    · rw [branchCommentTexts_closedBranch]
      simp only [List.count_append, branchCommentTexts, List.count_nil]
      omega
  · rw [if_neg fun hc => ho (List.contains_iff_mem.mp hc)]
    split
    · rename_i hv
      exact absurd (values_eq_nil hv h) ho
    · rw [branchCommentTexts_closedBranch, List.count_append]
      omega

/-- What is reached is in a branch, or in the window that falls into the first group. -/
theorem count_reachedTexts : ∀ {groups : List Group} (entered : Bool),
    groups.Pairwise (fun g h => CaseLabel.otherwise ∈ g.labels → CaseLabel.otherwise ∉ h.labels) →
    (reachedTexts entered groups).count t ≤
      (if entered then (commentTexts (window groups)).count t else 0) +
        (branchCommentTexts (merge groups)).count t
  | [], entered, _ => by simp [reachedTexts]
  | g :: rest, entered, hpair => by
    obtain ⟨hfirst, hpair⟩ := List.pairwise_cons.mp hpair
    -- what the group runs, and what falls out of it into the next one
    have hwindow : (commentTexts g.body).count t + (reachedTexts (!g.closed) rest).count t ≤
        (commentTexts (window (g :: rest))).count t +
          (branchCommentTexts (merge rest)).count t := by
      have hrest := count_reachedTexts (!g.closed) hpair
      rw [window, commentTexts_append, List.count_append]
      cases hclosed : g.closed with
      | true =>
        rw [hclosed] at hrest
        simp only [Bool.not_true, Bool.false_eq_true, if_false, if_true] at hrest ⊢
        omega
      | false =>
        rw [hclosed] at hrest
        simp only [Bool.not_false, Bool.false_eq_true, if_false, if_true] at hrest ⊢
        omega
    rw [reachedTexts]
    by_cases hl : g.labels = []
    · rw [merge_cons_of_unlabelled hl]
      cases entered with
      | true =>
        simp only [Bool.true_or, if_true, List.count_append]
        exact hwindow
      | false =>
        have hrest := count_reachedTexts false hpair
        simpa [hl] using hrest
    · have hbranch := count_merge_cons (t := t) hl fun g' hg' ho => hfirst g' hg' ho
      have hne : (entered || !g.labels.isEmpty) = true := by simp [hl]
      rw [if_pos hne, List.count_append]
      omega

end

/-! ## Normalising -/

section

variable {mode : ClosureMode} {t : String}

/-- The comments of groups are dead or reached, where those of their bodies are dead or kept. -/
theorem count_groups {branches : List (Branch Stmt)} {groups : List Group}
    (h : List.Forall₂ (Collected mode) branches groups)
    (ih : ∀ b ∈ branches, ∀ out, normalize mode b.body = .ok out →
      (commentTexts b.body).count t ≤
        (deadTexts mode b.body).count t + (commentTexts out).count t) :
    ∀ entered, (branchCommentTexts branches).count t ≤
      (groupDeadTexts mode entered branches).count t + (reachedTexts entered groups).count t := by
  induction h with
  | nil => exact fun _ => Nat.zero_le _
  | @cons b g branches groups hc _ ihrest =>
    intro entered
    obtain ⟨labels, closed, body⟩ := b
    obtain ⟨hb, hbs⟩ := List.forall_mem_cons.mp ih
    obtain ⟨out, hn, htexts⟩ := hc.commentTexts_eq
    have hbody : (commentTexts body).count t ≤
        (deadTexts mode body).count t + (commentTexts out).count t := hb out hn
    have hrest := ihrest hbs
    rw [branchCommentTexts, groupDeadTexts, reachedTexts, hc.labels, hc.closed, htexts]
    split
    · have := hrest (!closes mode body)
      simp only [List.count_append]
      omega
    · have := hrest false
      simp only [List.count_append]
      omega

/-- Every occurrence of a comment is dead or kept. -/
theorem count_commentTexts_normalize (body : List Stmt) : ∀ {out : List Stmt},
    normalize mode body = .ok out →
      (commentTexts body).count t ≤ (deadTexts mode body).count t + (commentTexts out).count t := by
  induction body using body_induction with
  | nil => exact fun _ => Nat.zero_le _
  | cons s rest ihs ih =>
    intro out h
    obtain ⟨s', rest', hs, hr, rfl⟩ := normalize_cons h
    have hrest := ih hr
    have hstmt : s.commentTexts.count t ≤ (s.deadTexts mode).count t + s'.commentTexts.count t := by
      cases Stmt.normalized_of_normalize hs with
      | plain hb hc => exact Nat.le_add_left _ _
      | block hn | loop hn | labeled hn => exact ihs _ (List.mem_singleton.mpr rfl) hn
      | ifOnly hn =>
        have := ihs _ (List.mem_singleton.mpr rfl) hn
        simpa [Stmt.commentTexts, Stmt.deadTexts, elseCommentTexts, elseDeadTexts] using this
      | ifElse hn he =>
        have hthen := ihs _ List.mem_cons_self hn
        have helse := ihs _ (List.mem_cons_of_mem _ (List.mem_singleton.mpr rfl)) he
        simp only [Stmt.commentTexts, Stmt.deadTexts, elseCommentTexts, elseDeadTexts,
          List.count_append]
        omega
      | case hg =>
        have hgroups := count_groups (collectGroups_collected hg)
          (fun b hb out hn => ihs b.body (List.mem_map.mpr ⟨b, hb, rfl⟩) hn) false
        have hmerge := count_reachedTexts (t := t) false (collectGroups_default hg).2
        simp only [Stmt.commentTexts, Stmt.deadTexts]
        simp only [Bool.false_eq_true, if_false] at hmerge
        omega
    simp only [commentTexts, deadTexts, List.count_append]
    omega

/-- **Normalising keeps every comment**, as often as it stands there, except those in switch groups
that nothing reaches. -/
theorem subperm_commentTexts_normalize {body out : List Stmt} (h : normalize mode body = .ok out) :
    (commentTexts body).Subperm (deadTexts mode body ++ commentTexts out) := by
  rw [List.subperm_ext_iff]
  intro t _
  rw [List.count_append]
  exact count_commentTexts_normalize body h

theorem mem_branchCommentTexts {branches : List (Branch Stmt)} :
    t ∈ branchCommentTexts branches ↔ ∃ b ∈ branches, t ∈ commentTexts b.body := by
  induction branches with
  | nil => simp [branchCommentTexts]
  | cons b rest ih => rw [branchCommentTexts, List.mem_append, ih, List.exists_mem_cons_iff]

theorem mem_commentTexts_window : ∀ {groups : List Group}, t ∈ commentTexts (window groups) →
    ∃ g ∈ groups, t ∈ commentTexts g.body
  | g :: rest, h => by
    rw [window, commentTexts_append] at h
    rcases List.mem_append.mp h with h | h
    · exact ⟨g, List.mem_cons_self, h⟩
    · split at h
      · cases h
      · obtain ⟨g', hg', ht⟩ := mem_commentTexts_window h
        exact ⟨g', List.mem_cons_of_mem g hg', ht⟩

theorem mem_branchCommentTexts_merge {groups : List Group}
    (h : t ∈ branchCommentTexts (merge groups)) : ∃ g ∈ groups, t ∈ commentTexts g.body := by
  obtain ⟨b, hb, ht⟩ := mem_branchCommentTexts.mp h
  obtain ⟨labels, tail, hs, rfl⟩ := mem_merge hb
  rw [closedBranch, commentTexts_labelExits] at ht
  obtain ⟨g, hg, ht⟩ := mem_commentTexts_window ht
  exact ⟨g, hs.subset hg, ht⟩

/-- A collected group is one of the switch, with its body normalised. -/
theorem mem_collected {branches : List (Branch Stmt)} {groups : List Group}
    (h : List.Forall₂ (Collected mode) branches groups) {g : Group} (hg : g ∈ groups) :
    ∃ b ∈ branches, Collected mode b g := by
  induction h with
  | nil => cases hg
  | @cons b g' branches groups hc _ ih =>
    rcases List.mem_cons.mp hg with rfl | hg
    · exact ⟨b, List.mem_cons_self, hc⟩
    · obtain ⟨b', hb', hc'⟩ := ih hg
      exact ⟨b', List.mem_cons_of_mem b hb', hc'⟩

/-- **Normalising makes no comment up.** A group that another one falls into is copied, with its
comments; so it is a matter of membership and not of counting. -/
theorem mem_commentTexts_of_normalize (body : List Stmt) : ∀ {out : List Stmt},
    normalize mode body = .ok out → t ∈ commentTexts out → t ∈ commentTexts body := by
  induction body using body_induction with
  | nil =>
    intro out h
    cases h
    exact id
  | cons s rest ihs ih =>
    intro out h
    obtain ⟨s', rest', hs, hr, rfl⟩ := normalize_cons h
    have hstmt : t ∈ s'.commentTexts → t ∈ s.commentTexts := by
      cases Stmt.normalized_of_normalize hs with
      | plain hb hc => exact id
      | block hn | loop hn | labeled hn => exact ihs _ (List.mem_singleton.mpr rfl) hn
      | ifOnly hn =>
        have := ihs _ (List.mem_singleton.mpr rfl) hn
        simpa [Stmt.commentTexts, elseCommentTexts] using this
      | ifElse hn he =>
        have hthen := ihs _ List.mem_cons_self hn
        have helse := ihs _ (List.mem_cons_of_mem _ (List.mem_singleton.mpr rfl)) he
        simp only [Stmt.commentTexts, elseCommentTexts, List.mem_append]
        exact Or.imp hthen helse
      | case hg =>
        intro ht
        obtain ⟨g, hg, ht⟩ := mem_branchCommentTexts_merge ht
        obtain ⟨b, hb, hc⟩ := mem_collected (collectGroups_collected ‹_›) hg
        obtain ⟨out, hn, htexts⟩ := hc.commentTexts_eq
        rw [htexts] at ht
        exact mem_branchCommentTexts.mpr ⟨b, hb, ihs b.body (List.mem_map.mpr ⟨b, hb, rfl⟩) hn ht⟩
    simp only [commentTexts, List.mem_append]
    exact Or.imp hstmt (ih hr)

end

end Rubify.Flow
