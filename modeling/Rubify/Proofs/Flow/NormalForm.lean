import Rubify.Proofs.Flow.Collect

/-!
# The normal form of switches

What `normalize` leaves behind, read off its output. Every switch of the output is the `merge` of
the collected groups of a switch of the input (`case_of_normalize`); what holds of a switch in
normal form is then a fact about `merge`, except that no unlabelled break leaves it: that is proved
on the way up (`tight_of_normalize`), because a branch may hold further switches.

Passes over a body keep the switches in it: `occursVia_of_trim` and `occursVia_of_retarget` say so
for searches that do not look inside statements (`Coarse`).

Headline: **`normalize_normalForm`**.
-/

namespace Rubify.Flow

/-! ## The branches of a merged switch -/

theorem mem_valueBranches {b : Branch Stmt} :
    ∀ {groups : List Group}, b ∈ valueBranches groups → ∃ g rest, g :: rest <:+ groups ∧
      values g.labels ≠ [] ∧ b = closedBranch ((values g.labels).map .value) (g :: rest)
  | g :: rest, h => by
    rw [valueBranches] at h
    split at h
    · obtain ⟨g', rest', hs, hv, hb⟩ := mem_valueBranches h
      exact ⟨g', rest', hs.trans (List.suffix_cons g rest), hv, hb⟩
    · rename_i hv
      rcases List.mem_cons.mp h with rfl | h
      · exact ⟨g, rest, List.suffix_refl _, hv, rfl⟩
      · obtain ⟨g', rest', hs, hv, hb⟩ := mem_valueBranches h
        exact ⟨g', rest', hs.trans (List.suffix_cons g rest), hv, hb⟩

/-- The default branch is missing, or it is one branch that runs from a group on. -/
theorem defaultBranch_cases : ∀ groups : List Group,
    (defaultBranch groups = [] ∧ ∀ g ∈ groups, CaseLabel.otherwise ∉ g.labels) ∨
    ∃ g rest, g :: rest <:+ groups ∧ CaseLabel.otherwise ∈ g.labels ∧
      defaultBranch groups = [closedBranch [.otherwise] (g :: rest)]
  | [] => Or.inl ⟨rfl, fun _ h => absurd h List.not_mem_nil⟩
  | g :: rest => by
    rw [defaultBranch]
    by_cases hd : CaseLabel.otherwise ∈ g.labels
    · rw [if_pos (List.contains_iff_mem.mpr hd)]
      exact Or.inr ⟨g, rest, List.suffix_refl _, hd, rfl⟩
    · rw [if_neg (fun h => hd (List.contains_iff_mem.mp h))]
      rcases defaultBranch_cases rest with ⟨he, hn⟩ | ⟨g', rest', hs, hd', hb⟩
      · exact Or.inl ⟨he, List.forall_mem_cons.mpr ⟨hd, hn⟩⟩
      · exact Or.inr ⟨g', rest', hs.trans (List.suffix_cons g rest), hd', hb⟩

/-- Every branch of a merged switch is closed and runs from some group on. -/
theorem mem_merge {groups : List Group} {b : Branch Stmt} (h : b ∈ merge groups) :
    ∃ labels tail, tail <:+ groups ∧ b = closedBranch labels tail := by
  rcases List.mem_append.mp h with h | h
  · obtain ⟨g, rest, hs, -, hb⟩ := mem_valueBranches h
    exact ⟨_, _, hs, hb⟩
  · rcases defaultBranch_cases groups with ⟨he, -⟩ | ⟨g, rest, hs, -, hb⟩
    · rw [he] at h; cases h
    · rw [hb] at h
      exact ⟨_, _, hs, List.mem_singleton.mp h⟩

theorem values_map_value (texts : List String) : values (texts.map .value) = texts := by
  rw [values, List.filterMap_map]
  exact List.filterMap_some

theorem flatMap_values_valueBranches : ∀ groups : List Group,
    (valueBranches groups).flatMap (fun b => values b.labels) =
      groups.flatMap fun g => values g.labels
  | [] => rfl
  | g :: rest => by
    have ih := flatMap_values_valueBranches rest
    rw [valueBranches, List.flatMap_cons]
    split
    · rename_i hv
      rw [hv, List.nil_append, ih]
    · rw [List.flatMap_cons, ih, closedBranch, values_map_value]

/-- Merging keeps the values of all groups in order. -/
theorem flatMap_values_merge (groups : List Group) :
    (merge groups).flatMap (fun b => values b.labels) =
      groups.flatMap fun g => values g.labels := by
  have hdefault : (defaultBranch groups).flatMap (fun b => values b.labels) = [] := by
    rcases defaultBranch_cases groups with ⟨he, -⟩ | ⟨g, rest, -, -, hb⟩
    · rw [he]; rfl
    · rw [hb]; rfl
  rw [merge, List.flatMap_append, hdefault, List.append_nil, flatMap_values_valueBranches]

theorem not_otherwise_of_mem_valueBranches {groups : List Group} {b : Branch Stmt}
    (h : b ∈ valueBranches groups) : b.labels ≠ [] ∧ CaseLabel.otherwise ∉ b.labels := by
  obtain ⟨g, rest, -, hv, rfl⟩ := mem_valueBranches h
  exact ⟨by simpa [closedBranch] using hv, by simp [closedBranch]⟩

/-- A merged switch has a default branch iff one of its groups has a default label. -/
theorem exists_default_merge (groups : List Group) :
    (∃ b ∈ merge groups, CaseLabel.otherwise ∈ b.labels) ↔
      ∃ g ∈ groups, CaseLabel.otherwise ∈ g.labels := by
  constructor
  · rintro ⟨b, hb, ho⟩
    rcases List.mem_append.mp hb with hb | hb
    · exact absurd ho (not_otherwise_of_mem_valueBranches hb).2
    · rcases defaultBranch_cases groups with ⟨he, -⟩ | ⟨g, rest, hs, hd, -⟩
      · rw [he] at hb; cases hb
      · exact ⟨g, hs.subset List.mem_cons_self, hd⟩
  · rintro ⟨g, hg, ho⟩
    rcases defaultBranch_cases groups with ⟨-, hn⟩ | ⟨g', rest, -, -, hb⟩
    · exact absurd ho (hn g hg)
    · refine ⟨closedBranch [.otherwise] (g' :: rest), ?_, List.mem_singleton.mpr rfl⟩
      rw [merge, hb]
      exact List.mem_append_right _ (List.mem_singleton.mpr rfl)

/-- At most one of the groups has a default label, and none if one has been met before. -/
theorem collectGroups_default {mode : ClosureMode} :
    ∀ {branches : List (Branch Stmt)} {seen : Bool} {groups : List Group},
      collectGroups mode seen branches = .ok groups →
      (seen = true → ∀ g ∈ groups, CaseLabel.otherwise ∉ g.labels) ∧
        groups.Pairwise fun g h => CaseLabel.otherwise ∈ g.labels →
          CaseLabel.otherwise ∉ h.labels
  | [], seen, groups, h => by
    cases h
    exact ⟨fun _ g hg => absurd hg List.not_mem_nil, .nil⟩
  | b :: rest, seen, groups, h => by
    obtain ⟨g, groups', rfl, hc, hdefault, hg⟩ := collectGroups_cons_ok h
    obtain ⟨hseen, hpair⟩ := collectGroups_default hg
    refine ⟨fun hs => List.forall_mem_cons.mpr ⟨?_, hseen (by simp [hs])⟩,
      .cons (fun g' hg' ho => hseen ?_ g' hg') hpair⟩
    · rw [hc.labels]
      simpa [Branch.isDefault, hs] using hdefault
    · rw [hc.labels] at ho
      simpa [Branch.isDefault] using Or.inr ho

theorem closedBranch_mem_valueBranches {g : Group} {rest : List Group}
    (hv : values g.labels ≠ []) : ∀ {groups : List Group}, g :: rest <:+ groups →
      closedBranch ((values g.labels).map .value) (g :: rest) ∈ valueBranches groups
  | [], hs => absurd (List.suffix_nil.mp hs) (List.cons_ne_nil g rest)
  | first :: others, hs => by
    rw [valueBranches]
    rcases List.suffix_cons_iff.mp hs with he | hs
    · obtain ⟨rfl, rfl⟩ := List.cons.inj he
      split
      · exact absurd ‹_› hv
      · exact List.mem_cons_self
    · have := closedBranch_mem_valueBranches hv hs
      split
      · exact this
      · exact List.mem_cons_of_mem _ this

theorem defaultBranch_eq_of_suffix {g : Group} {rest : List Group}
    (hd : CaseLabel.otherwise ∈ g.labels) : ∀ {groups : List Group}, g :: rest <:+ groups →
      groups.Pairwise (fun g h => CaseLabel.otherwise ∈ g.labels →
        CaseLabel.otherwise ∉ h.labels) →
      defaultBranch groups = [closedBranch [.otherwise] (g :: rest)]
  | [], hs, _ => absurd (List.suffix_nil.mp hs) (List.cons_ne_nil g rest)
  | first :: others, hs, hpair => by
    rw [defaultBranch]
    rcases List.suffix_cons_iff.mp hs with he | hs
    · obtain ⟨rfl, rfl⟩ := List.cons.inj he
      rw [if_pos (List.contains_iff_mem.mpr hd)]
    · obtain ⟨hfirst, hpair⟩ := List.pairwise_cons.mp hpair
      have hno : CaseLabel.otherwise ∉ first.labels := fun ho =>
        hfirst g (hs.subset List.mem_cons_self) ho hd
      rw [if_neg (fun h => hno (List.contains_iff_mem.mp h))]
      exact defaultBranch_eq_of_suffix hd hs hpair

theorem values_eq_nil {labels : List CaseLabel} (hv : values labels = []) (hne : labels ≠ []) :
    CaseLabel.otherwise ∈ labels := by
  obtain ⟨label, rest, rfl⟩ := List.exists_cons_of_ne_nil hne
  cases label with
  | otherwise => exact List.mem_cons_self
  | value text => cases hv

/-- Every group with a label has a branch that runs from it on. -/
theorem exists_closedBranch_mem_merge {mode : ClosureMode} {branches : List (Branch Stmt)}
    {groups : List Group} (h : collectGroups mode false branches = .ok groups) {g : Group}
    {rest : List Group} (hs : g :: rest <:+ groups) (hl : g.labels ≠ []) :
    ∃ labels, closedBranch labels (g :: rest) ∈ merge groups := by
  by_cases hv : values g.labels = []
  · have hd := defaultBranch_eq_of_suffix (values_eq_nil hv hl) hs (collectGroups_default h).2
    refine ⟨[.otherwise], ?_⟩
    rw [merge, hd]
    exact List.mem_append_right _ (List.mem_singleton.mpr rfl)
  · exact ⟨_, List.mem_append_left _ (closedBranch_mem_valueBranches hv hs)⟩

/-! ## What rewriting a body keeps -/

theorem exits_iff (body : List Stmt) :
    exits body = true ↔ OccursVia AtSwitch (.leave none) body := by
  induction body using body_induction with
  | nil => simp [exits, not_occursVia_nil]
  | cons s rest ihs ih =>
    rw [exits, Bool.or_eq_true, ih, occursVia_cons, ← or_assoc]
    refine or_congr ?_ Iff.rfl
    cases s with
    | ifThen condition thenBranch elseBranch =>
      cases elseBranch <;> simp_all [Stmt.exits, elseExits, Stmt.bodies, AtSwitch, Stmt.isLoop,
        Stmt.isCase]
    | leave label => cases label <;> simp [Stmt.exits, Stmt.bodies]
    | _ => simp_all [Stmt.exits, Stmt.bodies, AtSwitch, Stmt.isLoop,
        Stmt.isCase]

/-- What stands in a window stands in one of its groups. -/
theorem occursVia_window {into : Stmt → List Stmt → Prop} {s : Stmt} :
    ∀ {groups : List Group},
      OccursVia into s (window groups) → ∃ g ∈ groups, OccursVia into s g.body
  | [], h => absurd h not_occursVia_nil
  | g :: rest, h => by
    rw [window, occursVia_append] at h
    rcases h with h | h
    · exact ⟨g, List.mem_cons_self, h⟩
    · split at h
      · exact absurd h not_occursVia_nil
      · obtain ⟨g', hg, ho⟩ := occursVia_window h
        exact ⟨g', List.mem_cons_of_mem g hg, ho⟩

/-- A search that tells statements other than switches apart only by whether they are loops. -/
def Coarse (into : Stmt → List Stmt → Prop) : Prop :=
  ∀ ⦃t t' : Stmt⦄ ⦃b b' : List Stmt⦄, into t b → t.isLoop = t'.isLoop → t.isCase = false →
    t'.isCase = false → into t' b'

/-- A statement that a pass rewrites body by body. -/
structure Rewritten (f : List Stmt → List Stmt) (t t' : Stmt) : Prop where
  bodies : t'.bodies = t.bodies.map f
  isLoop : t'.isLoop = t.isLoop
  notCase : t.isCase = false
  notCase' : t'.isCase = false

/-- What stands inside a rewritten statement stood inside the statement, if that is so of its
bodies. -/
theorem Rewritten.occursVia {into : Stmt → List Stmt → Prop} (hi : Coarse into)
    {f : List Stmt → List Stmt} {s t t' : Stmt} (hr : Rewritten f t t')
    (ih : ∀ b ∈ t.bodies, OccursVia into s (f b) → OccursVia into s b)
    (h : ∃ b ∈ t'.bodies, into t' b ∧ OccursVia into s b) :
    ∃ b ∈ t.bodies, into t b ∧ OccursVia into s b := by
  obtain ⟨b', hb', hin, ho⟩ := h
  rw [hr.bodies] at hb'
  obtain ⟨b, hb, rfl⟩ := List.mem_map.mp hb'
  exact ⟨b, hb, hi hin hr.isLoop hr.notCase' hr.notCase, ih b hb ho⟩

/-- Trimming drops a statement, keeps it, or trims the bodies of a block or an `if`. -/
theorem Stmt.trim_cases (t : Stmt) :
    t.trim = [] ∨ t.trim = [t] ∨ ∃ t', t.trim = [t'] ∧ Rewritten Flow.trim t t' ∧
      ((∃ b, t' = .block b) ∨ ∃ c b e, t' = .ifThen c b e) := by
  cases t with
  | leave label => cases label <;> simp [Stmt.trim]
  | block body =>
    exact Or.inr (Or.inr ⟨_, rfl, ⟨rfl, rfl, rfl, rfl⟩, Or.inl ⟨_, rfl⟩⟩)
  | ifThen condition thenBranch elseBranch =>
    refine Or.inr (Or.inr ⟨_, rfl, ⟨?_, rfl, rfl, rfl⟩, Or.inr ⟨_, _, _, rfl⟩⟩)
    cases elseBranch <;> rfl
  | _ => exact Or.inr (Or.inl rfl)

/-- Trimming a body adds no statements but blocks and `if`s. -/
theorem occursVia_of_trim {into : Stmt → List Stmt → Prop} (hi : Coarse into) {s : Stmt}
    (hb : ∀ b, s ≠ .block b) (hif : ∀ c b e, s ≠ .ifThen c b e) (body : List Stmt)
    (h : OccursVia into s (trim body)) : OccursVia into s body := by
  induction body using body_induction with
  | nil => exact h
  | cons t rest iht ih =>
    rw [trim] at h
    split at h
    · rcases occursVia_append.mp h with h | h
      · rcases t.trim_cases with ht | ht | ⟨t', ht, hr, hshape⟩
        · rw [ht] at h
          exact absurd h not_occursVia_nil
        · rw [ht] at h
          exact occursVia_cons.mpr ((occursVia_cons.mp h).imp_right
            (Or.imp_right (absurd · not_occursVia_nil)))
        · rw [ht] at h
          rcases occursVia_cons.mp h with rfl | h | h
          · rcases hshape with ⟨b, rfl⟩ | ⟨c, b, e, rfl⟩
            · exact absurd rfl (hb b)
            · exact absurd rfl (hif c b e)
          · exact occursVia_cons.mpr (Or.inr (Or.inl (hr.occursVia hi iht h)))
          · exact absurd h not_occursVia_nil
      · exact occursVia_cons.mpr (Or.inr (Or.inr h))
    · exact occursVia_cons.mpr ((occursVia_cons.mp h).imp_right (Or.imp_right ih))

/-- Retargeting keeps a statement, points a break elsewhere, or goes into the bodies. -/
theorem Stmt.retarget_cases (t : Stmt) :
    t.retarget = t ∧ (t.isLoop = true ∨ t.isCase = true ∨ t.bodies = []) ∨
      t.retarget = .leave (some exitLabel) ∨ Rewritten Flow.retarget t t.retarget := by
  cases t with
  | leave label => cases label <;> simp [Stmt.retarget, Stmt.bodies]
  | block body => exact Or.inr (Or.inr ⟨rfl, rfl, rfl, rfl⟩)
  | labeled label body => exact Or.inr (Or.inr ⟨rfl, rfl, rfl, rfl⟩)
  | ifThen condition thenBranch elseBranch =>
    refine Or.inr (Or.inr ⟨?_, rfl, rfl, rfl⟩)
    cases elseBranch <;> rfl
  | _ => simp [Stmt.retarget, Stmt.isLoop, Stmt.isCase, Stmt.bodies]

theorem Stmt.retarget_ne_leave (t : Stmt) : t.retarget ≠ .leave none := by
  cases t with
  | leave label => cases label <;> simp [Stmt.retarget]
  | _ => simp [Stmt.retarget]

/-- Retargeting a body adds no switches. -/
theorem occursVia_of_retarget {into : Stmt → List Stmt → Prop} (hi : Coarse into) {value : String}
    {branches : List (Branch Stmt)} (body : List Stmt)
    (h : OccursVia into (.case value branches) (retarget body)) :
    OccursVia into (.case value branches) body := by
  induction body using body_induction with
  | nil => exact h
  | cons t rest iht ih =>
    rw [retarget] at h
    refine occursVia_cons.mpr ?_
    rcases occursVia_cons.mp h with hc | h | h
    · rcases t.retarget_cases with ⟨ht, -⟩ | ht | hr
      · exact Or.inl (hc.trans ht)
      · rw [ht] at hc; cases hc
      · have := hr.notCase'
        rw [← hc] at this
        cases this
    · rcases t.retarget_cases with ⟨ht, -⟩ | ht | hr
      · rw [ht] at h; exact Or.inr (Or.inl h)
      · rw [ht] at h
        obtain ⟨b, hb, -⟩ := h
        cases hb
      · exact Or.inr (Or.inl (hr.occursVia hi iht h))
    · exact Or.inr (Or.inr (ih h))

/-! ## The switches of the output -/

theorem coarse_anywhere : Coarse Anywhere := fun _ _ _ _ _ _ _ _ => trivial

theorem collected_of_mem {mode : ClosureMode} {branches : List (Branch Stmt)} {groups : List Group}
    (h : List.Forall₂ (Collected mode) branches groups) {g : Group} (hg : g ∈ groups) :
    ∃ b ∈ branches, Collected mode b g := by
  induction h with
  | nil => cases hg
  | cons hc _ ih =>
    rcases List.mem_cons.mp hg with rfl | hg
    · exact ⟨_, List.mem_cons_self, hc⟩
    · obtain ⟨b, hb, hc⟩ := ih hg
      exact ⟨b, List.mem_cons_of_mem _ hb, hc⟩

/-- What stands in the window of collected groups stood in one of the normalised bodies. -/
theorem occursVia_of_window {into : Stmt → List Stmt → Prop} (hi : Coarse into) {s : Stmt}
    (hb : ∀ b, s ≠ .block b) (hif : ∀ c b e, s ≠ .ifThen c b e) {mode : ClosureMode}
    {branches : List (Branch Stmt)} {groups tail : List Group}
    (hg : List.Forall₂ (Collected mode) branches groups) (ht : tail <:+ groups)
    (h : OccursVia into s (window tail)) :
    ∃ b ∈ branches, ∃ out, normalize mode b.body = .ok out ∧ OccursVia into s out := by
  obtain ⟨g, hgt, ho⟩ := occursVia_window h
  obtain ⟨b, hbb, hc⟩ := collected_of_mem hg (ht.subset hgt)
  obtain ⟨out, hn, hbody⟩ := hc.body
  refine ⟨b, hbb, out, hn, ?_⟩
  rw [hbody, trimIf] at ho
  split at ho
  · exact occursVia_of_trim hi hb hif out ho
  · exact ho

/-- A switch in a branch of a merged switch stood in one of the normalised bodies. -/
theorem case_of_merge {mode : ClosureMode} {branches : List (Branch Stmt)} {groups : List Group}
    (hg : List.Forall₂ (Collected mode) branches groups) {b : Branch Stmt} (hb : b ∈ merge groups)
    {value : String} {inner : List (Branch Stmt)}
    (h : OccursVia Anywhere (.case value inner) b.body) :
    ∃ b ∈ branches, ∃ out, normalize mode b.body = .ok out ∧
      OccursVia Anywhere (.case value inner) out := by
  obtain ⟨labels, tail, ht, rfl⟩ := mem_merge hb
  refine occursVia_of_window coarse_anywhere (by simp) (by simp) hg ht ?_
  simp only [closedBranch, labelExits] at h
  split at h
  · rcases occursVia_cons.mp h with hc | ⟨b, hb, -, ho⟩ | h
    · cases hc
    · obtain rfl := List.mem_singleton.mp hb
      exact occursVia_of_retarget coarse_anywhere _ ho
    · exact absurd h not_occursVia_nil
  · exact h

/-- A switch inside a normalised statement stood in one of the normalised bodies. -/
theorem Stmt.Normalized.case_inside {mode : ClosureMode} {s s' : Stmt} (hn : s.Normalized mode s')
    {value : String} {branches : List (Branch Stmt)} {b' : List Stmt} (hb' : b' ∈ s'.bodies)
    (ho : OccursVia Anywhere (.case value branches) b') :
    ∃ b ∈ s.bodies, ∃ out, Flow.normalize mode b = .ok out ∧
      OccursVia Anywhere (.case value branches) out := by
  by_cases hcase : s.isCase = true
  · cases hn with
    | case hg =>
      obtain ⟨c, hc, rfl⟩ := List.mem_map.mp hb'
      obtain ⟨b, hb, out, hnb, hob⟩ := case_of_merge (collectGroups_collected hg) hc ho
      exact ⟨b.body, List.mem_map.mpr ⟨b, hb, rfl⟩, out, hnb, hob⟩
    | plain hbs hcase' => rw [hcase'] at hcase; cases hcase
    | _ => cases hcase
  · obtain ⟨b, hb, hnb⟩ := (hn.bodies (Bool.eq_false_iff.mpr hcase)).2.2 b' hb'
    exact ⟨b, hb, b', hnb, ho⟩

/-- **Every switch of the output is a merged switch of the input.** -/
theorem case_of_normalize {mode : ClosureMode} {value : String} {branches : List (Branch Stmt)}
    (body : List Stmt) : ∀ {out : List Stmt}, normalize mode body = .ok out →
      OccursVia Anywhere (.case value branches) out →
      ∃ source groups, OccursVia Anywhere (.case value source) body ∧
        collectGroups mode false source = .ok groups ∧ branches = merge groups := by
  induction body using body_induction with
  | nil =>
    intro out h ho
    cases h
    exact absurd ho not_occursVia_nil
  | cons s rest ihs ih =>
    intro out h ho
    obtain ⟨s', rest', hs, hr, rfl⟩ := normalize_cons h
    have hn := Stmt.normalized_of_normalize hs
    rcases occursVia_cons.mp ho with hc | ⟨b', hb', -, hob⟩ | hor
    · cases hn with
      | plain hbs hcase => rw [← hc] at hcase; cases hcase
      | case hg =>
        cases hc
        exact ⟨_, _, .here List.mem_cons_self, hg, rfl⟩
      | _ => cases hc
    · obtain ⟨b, hb, out, hnb, hob⟩ := hn.case_inside hb' hob
      obtain ⟨source, groups, hsrc, hg⟩ := ihs b hb hnb hob
      exact ⟨source, groups, .inside List.mem_cons_self hb trivial hsrc, hg⟩
    · obtain ⟨source, groups, hsrc, hg⟩ := ih hr hor
      exact ⟨source, groups, occursVia_cons.mpr (Or.inr (Or.inr hsrc)), hg⟩

/-! ## No unlabelled break leaves a switch -/

/-- No branch of a switch in the body holds an unlabelled break outside loops. -/
def Tight (body : List Stmt) : Prop :=
  ∀ value branches, OccursVia Anywhere (.case value branches) body →
    ∀ b ∈ branches, ¬ OccursVia OutsideLoops (.leave none) b.body

theorem Tight.inside {body b : List Stmt} {t : Stmt} (h : Tight body) (ht : t ∈ body)
    (hb : b ∈ t.bodies) : Tight b :=
  fun value branches ho => h value branches (.inside ht hb trivial ho)

theorem Tight.rest {t : Stmt} {rest : List Stmt} (h : Tight (t :: rest)) : Tight rest :=
  fun value branches ho => h value branches (occursVia_cons.mpr (Or.inr (Or.inr ho)))

/-- A switch that stands in a tight body holds no unlabelled break outside loops. -/
theorem Tight.not_loose_inside {body b : List Stmt} {t : Stmt} (h : Tight body) (ht : t ∈ body)
    (hc : t.isCase = true) (hb : b ∈ t.bodies) : ¬ OccursVia OutsideLoops (.leave none) b := by
  cases t with
  | case value branches =>
    obtain ⟨branch, hbr, rfl⟩ := List.mem_map.mp hb
    exact h value branches (.here ht) branch hbr
  | _ => cases hc

/-- In a tight body the unlabelled breaks outside loops belong to the switch around it. -/
theorem Tight.atSwitch {body : List Stmt} (h : Tight body)
    (ho : OccursVia OutsideLoops (.leave none) body) : OccursVia AtSwitch (.leave none) body := by
  induction ho with
  | here hm => exact .here hm
  | @inside body inner t ht hb hl ho ih =>
    by_cases hc : t.isCase = true
    · exact absurd ho (h.not_loose_inside ht hc hb)
    · exact .inside ht hb ⟨hl, Bool.eq_false_iff.mpr hc⟩ (ih (h.inside ht hb))

/-- Retargeting a tight body leaves no unlabelled break outside loops. -/
theorem Tight.not_loose_retarget (body : List Stmt) (h : Tight body) :
    ¬ OccursVia OutsideLoops (.leave none) (retarget body) := by
  induction body using body_induction with
  | nil => exact not_occursVia_nil
  | cons t rest iht ih =>
    intro ho
    rcases occursVia_cons.mp ho with hc | ⟨b', hb', hl, hob⟩ | hor
    · exact t.retarget_ne_leave hc.symm
    · rcases t.retarget_cases with ⟨ht, hkind⟩ | ht | hr
      · rw [ht] at hb' hl
        rcases hkind with hloop | hcase | hnone
        · exact Bool.false_ne_true (hl.symm.trans hloop)
        · exact h.not_loose_inside List.mem_cons_self hcase hb' hob
        · rw [hnone] at hb'; cases hb'
      · rw [ht] at hb'; cases hb'
      · rw [hr.bodies] at hb'
        obtain ⟨b, hb, rfl⟩ := List.mem_map.mp hb'
        exact iht b hb (h.inside List.mem_cons_self hb) hob
    · exact ih h.rest hor

theorem Tight.not_loose_labelExits {body : List Stmt} (h : Tight body) :
    ¬ OccursVia OutsideLoops (.leave none) (labelExits body) := by
  rw [labelExits]
  split
  · intro ho
    rcases occursVia_cons.mp ho with hc | ⟨b, hb, -, hob⟩ | hor
    · cases hc
    · obtain rfl := List.mem_singleton.mp hb
      exact Tight.not_loose_retarget body h hob
    · exact not_occursVia_nil hor
  · rename_i hx
    exact fun ho => hx ((exits_iff body).mpr (h.atSwitch ho))

/-- **The output is tight.** -/
theorem tight_of_normalize {mode : ClosureMode} (body : List Stmt) :
    ∀ {out : List Stmt}, normalize mode body = .ok out → Tight out := by
  induction body using body_induction with
  | nil =>
    intro out h value branches ho
    cases h
    exact absurd ho not_occursVia_nil
  | cons s rest ihs ih =>
    intro out h value branches ho
    obtain ⟨s', rest', hs, hr, rfl⟩ := normalize_cons h
    have hn := Stmt.normalized_of_normalize hs
    rcases occursVia_cons.mp ho with hc | ⟨b', hb', -, hob⟩ | hor
    · cases hn with
      | plain hbs hcase => rw [← hc] at hcase; cases hcase
      | @case value' source groups hg =>
        cases hc
        intro b hb
        obtain ⟨labels, tail, ht, rfl⟩ := mem_merge hb
        refine Tight.not_loose_labelExits fun value branches ho => ?_
        obtain ⟨b, hb, out, hnb, hob⟩ := occursVia_of_window coarse_anywhere (by simp) (by simp)
          (collectGroups_collected hg) ht ho
        exact ihs b.body (List.mem_map.mpr ⟨b, hb, rfl⟩) hnb value branches hob
      | _ => cases hc
    · obtain ⟨b, hb, out, hnb, hob⟩ := hn.case_inside hb' hob
      exact ihs b hb hnb value branches hob
    · exact ih hr value branches hor

/-! ## Exits stay inside their wrapper -/

/-- Every body is searched except the branches that are wrapped whole in `exitLabel`. -/
def Unwrapped (t : Stmt) (inner : List Stmt) : Prop :=
  ¬ (t.isCase = true ∧ ∃ b, inner = [.labeled exitLabel b])

theorem coarse_unwrapped : Coarse Unwrapped := by
  intro t t' b b' _ _ _ ht' hu
  rw [ht'] at hu
  exact Bool.false_ne_true hu.1

/-- If the input does not use `exitLabel`, no break of the output that names it stands outside the
branches wrapped in it. -/
theorem not_stray_of_normalize {mode : ClosureMode} (body : List Stmt) :
    ∀ {out : List Stmt}, normalize mode body = .ok out → AvoidsLabel exitLabel body →
      ¬ OccursVia Unwrapped (.leave (some exitLabel)) out := by
  induction body using body_induction with
  | nil =>
    intro out h _
    cases h
    exact not_occursVia_nil
  | cons s rest ihs ih =>
    intro out h ha ho
    obtain ⟨s', rest', hs, hr, rfl⟩ := normalize_cons h
    have hn := Stmt.normalized_of_normalize hs
    rcases occursVia_cons.mp ho with hc | ⟨b', hb', hu, hob⟩ | hor
    · cases hn with
      | plain hbs hcase => exact ha.2 (.here (hc ▸ List.mem_cons_self))
      | _ => cases hc
    · by_cases hcase : s.isCase = true
      · cases hn with
        | case hg =>
          obtain ⟨c, hc, rfl⟩ := List.mem_map.mp hb'
          obtain ⟨labels, tail, ht, rfl⟩ := mem_merge hc
          simp only [closedBranch, labelExits] at hu hob
          split at hob
          · rename_i hx
            rw [if_pos hx] at hu
            exact hu ⟨rfl, _, rfl⟩
          · obtain ⟨b, hb, out, hnb, hob⟩ := occursVia_of_window coarse_unwrapped (by simp)
              (by simp) (collectGroups_collected hg) ht hob
            have hmem := List.mem_map_of_mem (f := Branch.body) hb
            exact ihs b.body hmem hnb (ha.inside hmem) hob
        | plain hbs hcase' => rw [hcase'] at hcase; cases hcase
        | _ => cases hcase
      · obtain ⟨b, hb, hnb⟩ := (hn.bodies (Bool.eq_false_iff.mpr hcase)).2.2 b' hb'
        exact ihs b hb hnb (ha.inside hb) hob
    · exact ih hr ha.rest hor

/-! ## The normal form -/

/-- The branches of a switch in normal form. -/
structure NormalSwitch (branches : List (Branch Stmt)) : Prop where
  closed : ∀ b ∈ branches, b.closed = true
  /-- Branches with values and nothing else, then at most one with the default label alone. -/
  labels : ∃ regular last, branches = regular ++ last ∧
    (∀ b ∈ regular, b.labels ≠ [] ∧ CaseLabel.otherwise ∉ b.labels) ∧
    (last = [] ∨ ∃ b, last = [b] ∧ b.labels = [.otherwise])
  tight : ∀ b ∈ branches, ¬ OccursVia OutsideLoops (.leave none) b.body

/-- The branches take the same values in the same order as the groups, and have a default iff one of
the groups has. -/
structure SameLabels (groups branches : List (Branch Stmt)) : Prop where
  values : branches.flatMap (fun b => values b.labels) = groups.flatMap fun b => values b.labels
  default : (∃ b ∈ branches, b.isDefault = true) ↔ ∃ b ∈ groups, b.isDefault = true

theorem forall₂_labels {mode : ClosureMode} {branches : List (Branch Stmt)} {groups : List Group}
    (h : List.Forall₂ (Collected mode) branches groups) :
    groups.map Group.labels = branches.map Branch.labels := by
  induction h with
  | nil => rfl
  | cons hc _ ih => rw [List.map_cons, List.map_cons, hc.labels, ih]

theorem sameLabels_merge {mode : ClosureMode} {branches : List (Branch Stmt)} {groups : List Group}
    (h : List.Forall₂ (Collected mode) branches groups) : SameLabels branches (merge groups) := by
  have hl := forall₂_labels h
  constructor
  · rw [flatMap_values_merge, ← List.flatMap_map Group.labels, hl, List.flatMap_map]
  · simp only [Branch.isDefault, List.contains_iff_mem]
    rw [exists_default_merge]
    have : (∃ l ∈ groups.map Group.labels, CaseLabel.otherwise ∈ l) ↔
        ∃ l ∈ branches.map Branch.labels, CaseLabel.otherwise ∈ l := by rw [hl]
    simpa using this

theorem normalSwitch_merge {groups : List Group}
    (h : ∀ b ∈ merge groups, ¬ OccursVia OutsideLoops (.leave none) b.body) :
    NormalSwitch (merge groups) := by
  refine ⟨fun b hb => ?_, ⟨valueBranches groups, defaultBranch groups, rfl, ?_, ?_⟩, h⟩
  · obtain ⟨labels, tail, -, rfl⟩ := mem_merge hb
    rfl
  · exact fun b hb => not_otherwise_of_mem_valueBranches hb
  · rcases defaultBranch_cases groups with ⟨he, -⟩ | ⟨g, rest, -, -, hb⟩
    · exact Or.inl he
    · exact Or.inr ⟨_, hb, rfl⟩

/-- **The output is in normal form**: every switch in it, at any depth, has closed branches, at most
one default behind all others, and no unlabelled break outside loops; it is what one switch of the
input became, with the same values in order and a default iff that one had one. If the input does
not use `exitLabel`, every break to it stands in a branch that is wrapped in it. -/
theorem normalize_normalForm {mode : ClosureMode} {body out : List Stmt}
    (h : normalize mode body = .ok out) :
    (∀ value branches, OccursVia Anywhere (.case value branches) out →
      NormalSwitch branches ∧ ∃ source, OccursVia Anywhere (.case value source) body ∧
        normalizeSwitch mode value source = .ok (.case value branches) ∧
        SameLabels source branches) ∧
    (AvoidsLabel exitLabel body → ¬ OccursVia Unwrapped (.leave (some exitLabel)) out) := by
  refine ⟨fun value branches ho => ?_, not_stray_of_normalize body h⟩
  have ht := tight_of_normalize body h value branches ho
  obtain ⟨source, groups, hsrc, hg, rfl⟩ := case_of_normalize body h ho
  refine ⟨normalSwitch_merge ht, source, hsrc, ?_, sameLabels_merge (collectGroups_collected hg)⟩
  rw [normalizeSwitch_eq, hg]
  rfl

/-- A loop around a switch whose first group breaks early and falls through into its default. -/
theorem normalize_normalForm_early : ∃ branches,
    normalize .strict [.loop "c" [.case "x"
      [⟨[.value "1"], false, [.ifThen "y" [.leave none] none, .other "a"]⟩,
        ⟨[.otherwise, .value "2"], false, [.other "b", .leave none]⟩]]] =
      .ok [.loop "c" [.case "x" branches]] ∧
    NormalSwitch branches ∧
    ¬ OccursVia Unwrapped (.leave (some exitLabel)) [.loop "c" [.case "x" branches]] := by
  have h : ∃ branches, normalize .strict [.loop "c" [.case "x"
      [⟨[.value "1"], false, [.ifThen "y" [.leave none] none, .other "a"]⟩,
        ⟨[.otherwise, .value "2"], false, [.other "b", .leave none]⟩]]] =
      .ok [.loop "c" [.case "x" branches]] := ⟨_, rfl⟩
  obtain ⟨branches, h⟩ := h
  have hn := normalize_normalForm h
  refine ⟨branches, h, (hn.1 "x" branches ?_).1, hn.2 ?_⟩
  · exact .inside List.mem_cons_self (List.mem_singleton.mpr rfl) trivial (.here List.mem_cons_self)
  · simp [AvoidsLabel, occursVia_cons, not_occursVia_nil, Stmt.bodies]

end Rubify.Flow
