import Rubify.Proofs.Flow.NormalForm
import Rubify.Ruby.Stmt

/-!
# Which loop a break leaves

In the target an unlabelled break leaves the nearest loop, but a labelled statement is a block of its
own there, and a break inside it leaves that block. So a break of the output leaves a loop only if
the loop is nearer than any labelled statement (`BreaksLeaveLoops`). `normalize` takes care of this
for the labels that it adds, and for the breaks that left a switch; it keeps a labelled statement that
the source has put between a loop and a break.

`Under s around body` says that `s` stands in `body` inside the statements `around`, the outermost
first. The proofs work with the loops of a body instead, and with what stands in a loop but in no
inner loop or switch (`LoopsClear`): the loops of the output are the normalised loops of the input,
and what stands in one of them stood there before.

Headline:
* **`normalize_breaks_leave_loops`**: where every unlabelled break of the input stands in a loop or a
  switch, every one of the output leaves a loop, if no labelled statement of the input stands between
  a break and the loop it leaves; and only then, if every switch group has a label.
* **`normalize_break_in_label`**: a loop around a labelled break is written so that the break does
  not leave the loop.
-/

namespace Rubify.Flow

/-! ## What stands around a statement -/

/-- Whether a statement is labelled. -/
def Stmt.isLabeled : Stmt → Bool
  | .labeled _ _ => true
  | _ => false

/-- `s` stands in the body inside the statements `around`, the outermost first. -/
inductive Under (s : Stmt) : List Stmt → List Stmt → Prop
  | here {body : List Stmt} : s ∈ body → Under s [] body
  | inside {body inner around : List Stmt} {t : Stmt} :
      t ∈ body → inner ∈ t.bodies → Under s around inner → Under s (t :: around) body

/-- Every unlabelled break stands in a loop or a switch. -/
def BreaksOwned (body : List Stmt) : Prop :=
  ∀ around, Under (.leave none) around body → ∃ t ∈ around, t.isLoop = true ∨ t.isCase = true

/-- No labelled statement stands between an unlabelled break and the loop it leaves, if it leaves a
loop and not a switch. -/
def BreaksUnlabelled (body : List Stmt) : Prop :=
  ∀ outer t inner, Under (.leave none) (outer ++ t :: inner) body → t.isLoop = true →
    (∀ u ∈ inner, u.isLoop = false ∧ u.isCase = false) → ∀ u ∈ inner, u.isLabeled = false

/-- Around every unlabelled break, the nearest statement that is a loop or labelled is a loop. -/
def BreaksLeaveLoops (body : List Stmt) : Prop :=
  ∀ around, Under (.leave none) around body →
    ∃ t, (around.filter fun t => t.isLoop || t.isLabeled).getLast? = some t ∧ t.isLoop = true

/-- Every group of a switch has a label. -/
def GroupsLabelled (body : List Stmt) : Prop :=
  ∀ value branches, OccursVia Anywhere (.case value branches) body → ∀ b ∈ branches, b.labels ≠ []

section

variable {s t : Stmt} {body : List Stmt}

/-- What stands inside `t` stands in one of its bodies. -/
theorem under_append {outer inner : List Stmt} : Under s (outer ++ t :: inner) body ↔
    Under t outer body ∧ ∃ b ∈ t.bodies, Under s inner b := by
  induction outer generalizing body with
  | nil =>
    constructor
    · rintro (_ | ⟨ht, hb, hs⟩)
      exact ⟨.here ht, _, hb, hs⟩
    · rintro ⟨_ | _, b, hb, hs⟩
      exact .inside ‹_› hb hs
  | cons u outer ih =>
    constructor
    · rintro (_ | ⟨hu, hb, hs⟩)
      obtain ⟨ht, hs⟩ := ih.mp hs
      exact ⟨.inside hu hb ht, hs⟩
    · rintro ⟨_ | ⟨hu, hb, ht⟩, hs⟩
      exact .inside hu hb (ih.mpr ⟨ht, hs⟩)

/-- A search that looks only at the statements it enters finds what they stand around. -/
theorem occursVia_iff_under {into : Stmt → List Stmt → Prop} {p : Stmt → Prop}
    (hp : ∀ t b, into t b ↔ p t) :
    OccursVia into s body ↔ ∃ around, Under s around body ∧ ∀ t ∈ around, p t := by
  constructor
  · intro h
    induction h with
    | here hs => exact ⟨[], .here hs, fun t ht => absurd ht List.not_mem_nil⟩
    | inside ht hb hi _ ih =>
      obtain ⟨around, hu, hall⟩ := ih
      exact ⟨_, .inside ht hb hu, List.forall_mem_cons.mpr ⟨(hp _ _).mp hi, hall⟩⟩
  · rintro ⟨around, hu, hall⟩
    induction hu with
    | here hs => exact .here hs
    | inside ht hb _ ih =>
      obtain ⟨hi, hall⟩ := List.forall_mem_cons.mp hall
      exact .inside ht hb ((hp _ _).mpr hi) (ih hall)

theorem occursVia_anywhere : OccursVia Anywhere s body ↔ ∃ around, Under s around body := by
  constructor
  · intro h
    obtain ⟨around, hu, -⟩ :=
      (occursVia_iff_under (p := fun _ => True) fun _ _ => Iff.rfl).mp h
    exact ⟨around, hu⟩
  · rintro ⟨around, hu⟩
    exact (occursVia_iff_under (p := fun _ => True) fun _ _ => Iff.rfl).mpr
      ⟨around, hu, fun _ _ => trivial⟩

theorem occursVia_outsideLoops : OccursVia OutsideLoops s body ↔
    ∃ around, Under s around body ∧ ∀ t ∈ around, t.isLoop = false :=
  occursVia_iff_under fun _ _ => Iff.rfl

theorem occursVia_atSwitch : OccursVia AtSwitch s body ↔
    ∃ around, Under s around body ∧ ∀ t ∈ around, t.isLoop = false ∧ t.isCase = false :=
  occursVia_iff_under fun _ _ => Iff.rfl

/-- Breaks in loops and switches are found by no search that enters neither. -/
theorem breaksOwned_iff : BreaksOwned body ↔ ¬ OccursVia AtSwitch (.leave none) body := by
  rw [occursVia_atSwitch]
  constructor
  · rintro h ⟨around, hu, hall⟩
    obtain ⟨t, ht, hl | hc⟩ := h around hu
    · exact Bool.false_ne_true ((hall t ht).1.symm.trans hl)
    · exact Bool.false_ne_true ((hall t ht).2.symm.trans hc)
  · intro h around hu
    by_contra hnone
    refine h ⟨around, hu, fun t ht => ?_⟩
    have := fun hor => hnone ⟨t, ht, hor⟩
    simpa using this

end

/-! ## Loops without labelled breaks -/

/-- In no loop an unlabelled break that leaves it stands in a labelled statement. -/
def LoopsClear (body : List Stmt) : Prop :=
  ∀ condition inner, OccursVia Anywhere (.loop condition inner) body →
    ∀ label held, OccursVia AtSwitch (.labeled label held) inner →
      ¬ OccursVia AtSwitch (.leave none) held

section

variable {body : List Stmt}

theorem breaksUnlabelled_iff : BreaksUnlabelled body ↔ LoopsClear body := by
  constructor
  · intro h condition inner hl label held hh hx
    obtain ⟨outer, hl⟩ := occursVia_anywhere.mp hl
    obtain ⟨before, hh, hbefore⟩ := occursVia_atSwitch.mp hh
    obtain ⟨behind, hx, hbehind⟩ := occursVia_atSwitch.mp hx
    have hbreak : Under (.leave none)
        (outer ++ .loop condition inner :: (before ++ .labeled label held :: behind)) body :=
      under_append.mpr ⟨hl, inner, List.mem_singleton.mpr rfl,
        under_append.mpr ⟨hh, held, List.mem_singleton.mpr rfl, hx⟩⟩
    have hlabel := h _ _ _ hbreak rfl (fun u hu => ?_) (.labeled label held) (by simp)
    · cases hlabel
    · rcases List.mem_append.mp hu with hu | hu
      · exact hbefore u hu
      · rcases List.mem_cons.mp hu with rfl | hu
        · exact ⟨rfl, rfl⟩
        · exact hbehind u hu
  · intro h outer t inner hbreak ht hinner u hu
    obtain ⟨hl, b, hb, hx⟩ := under_append.mp hbreak
    cases t with
    | loop condition body' =>
      obtain rfl := List.mem_singleton.mp hb
      obtain ⟨before, behind, rfl⟩ := List.append_of_mem hu
      obtain ⟨hh, held, hheld, hheldBreak⟩ := under_append.mp hx
      cases u with
      | labeled label held' =>
        obtain rfl := List.mem_singleton.mp hheld
        have hbefore : ∀ v ∈ before, v.isLoop = false ∧ v.isCase = false := fun v hv =>
          hinner v (List.mem_append_left _ hv)
        have hbehind : ∀ v ∈ behind, v.isLoop = false ∧ v.isCase = false := fun v hv =>
          hinner v (List.mem_append_right _ (List.mem_cons_of_mem _ hv))
        exact (h condition b (occursVia_anywhere.mpr ⟨outer, hl⟩) label held
          (occursVia_atSwitch.mpr ⟨before, hh, hbefore⟩)
          (occursVia_atSwitch.mpr ⟨behind, hheldBreak, hbehind⟩)).elim
      | _ => rfl
    | _ => cases ht

/-- The last element with a property, and those behind it. -/
theorem exists_last_of_mem {α : Type} {p : α → Bool} : ∀ {xs : List α}, (∃ x ∈ xs, p x = true) →
    ∃ before x behind, xs = before ++ x :: behind ∧ p x = true ∧ ∀ y ∈ behind, p y = false
  | [], h => by
    obtain ⟨x, hx, -⟩ := h
    cases hx
  | y :: ys, h => by
    by_cases hys : ∃ x ∈ ys, p x = true
    · obtain ⟨before, x, behind, rfl, hx, hall⟩ := exists_last_of_mem hys
      exact ⟨y :: before, x, behind, rfl, hx, hall⟩
    · have hnone : ∀ z ∈ ys, p z = false := fun z hz => by
        by_contra hz'
        exact hys ⟨z, hz, (Bool.not_eq_false _).mp hz'⟩
      obtain ⟨x, hx, hpx⟩ := h
      rcases List.mem_cons.mp hx with rfl | hx
      · exact ⟨[], x, ys, rfl, hpx, hnone⟩
      · exact absurd ⟨x, hx, hpx⟩ hys

/-- In a tight body the breaks leave loops iff none stands outside all loops, and none in a labelled
statement inside its loop. -/
theorem breaksLeaveLoops_iff (ht : Tight body) : BreaksLeaveLoops body ↔
    ¬ OccursVia OutsideLoops (.leave none) body ∧ LoopsClear body := by
  constructor
  · intro h
    refine ⟨fun ho => ?_, breaksUnlabelled_iff.mp fun outer t inner hu hloop hinner u hmem => ?_⟩
    · obtain ⟨around, hu, hall⟩ := occursVia_outsideLoops.mp ho
      obtain ⟨t, hlast, hloop⟩ := h around hu
      have hmem := (List.mem_filter.mp (List.mem_of_getLast? hlast)).1
      exact Bool.false_ne_true ((hall t hmem).symm.trans hloop)
    · -- a labelled statement inside the loop would be nearer than the loop
      by_contra hlabel
      obtain ⟨v, hlast, hv⟩ := h _ hu
      have hne : inner.filter (fun t => t.isLoop || t.isLabeled) ≠ [] := by
        refine List.ne_nil_of_mem (List.mem_filter.mpr ⟨hmem, ?_⟩)
        simpa using Or.inr ((Bool.not_eq_false _).mp hlabel)
      rw [List.append_cons, List.filter_append, List.getLast?_append_of_ne_nil _ hne] at hlast
      have hmem := (List.mem_filter.mp (List.mem_of_getLast? hlast)).1
      exact Bool.false_ne_true ((hinner v hmem).1.symm.trans hv)
  · rintro ⟨hout, hclear⟩ around hu
    have hloop : ∃ t ∈ around, t.isLoop = true := by
      by_contra hnone
      refine hout (occursVia_outsideLoops.mpr ⟨around, hu, fun t ht => ?_⟩)
      by_contra ht'
      exact hnone ⟨t, ht, (Bool.not_eq_false _).mp ht'⟩
    obtain ⟨outer, t, inner, rfl, hloop, hinner⟩ := exists_last_of_mem hloop
    have hcase : ∀ u ∈ inner, u.isCase = false := by
      intro u hmem
      by_contra hcase
      obtain ⟨before, behind, rfl⟩ := List.append_of_mem hmem
      obtain ⟨hl, b, hb, hx⟩ := under_append.mp hu
      obtain ⟨hin, b', hb', hx⟩ := under_append.mp hx
      have hocc : OccursVia Anywhere u body :=
        occursVia_anywhere.mpr ⟨outer ++ t :: before, under_append.mpr ⟨hl, b, hb, hin⟩⟩
      cases u with
      | case value branches =>
        obtain ⟨branch, hbranch, rfl⟩ := List.mem_map.mp hb'
        refine ht value branches hocc branch hbranch
          (occursVia_outsideLoops.mpr ⟨behind, hx, fun v hv => hinner v ?_⟩)
        exact List.mem_append_right _ (List.mem_cons_of_mem _ hv)
      | _ => exact hcase rfl
    have hlabel := breaksUnlabelled_iff.mpr hclear outer t inner hu hloop fun u hmem =>
      ⟨hinner u hmem, hcase u hmem⟩
    refine ⟨t, ?_, hloop⟩
    have hnil : inner.filter (fun t => t.isLoop || t.isLabeled) = [] := by
      rw [List.filter_eq_nil_iff]
      intro u hmem
      simp [hinner u hmem, hlabel u hmem]
    rw [List.filter_append, List.filter_cons_of_pos (by simp [hloop]), hnil, List.getLast?_concat]

end

/-! ## What normalising does outside switches -/

section

variable {mode : ClosureMode} {body out : List Stmt}

/-- Outside switches, every body of a statement has its normalised body. -/
theorem Stmt.Normalized.exists_body {s s' : Stmt} (h : s.Normalized mode s')
    (hs : s.isCase = false) : ∀ b ∈ s.bodies, ∃ b' ∈ s'.bodies, Flow.normalize mode b = .ok b' := by
  cases h with
  | plain hb hc =>
    intro b hmem
    rw [hb] at hmem
    cases hmem
  | block hn | loop hn | labeled hn | ifOnly hn =>
    intro b hmem
    exact ⟨_, List.mem_singleton.mpr rfl, List.mem_singleton.mp hmem ▸ hn⟩
  | ifElse hn he =>
    intro b hmem
    rcases List.mem_cons.mp hmem with rfl | hmem
    · exact ⟨_, List.mem_cons_self, hn⟩
    · obtain rfl := List.mem_singleton.mp hmem
      exact ⟨_, List.mem_cons_of_mem _ (List.mem_singleton.mpr rfl), he⟩
  | case hg => cases hs

theorem Stmt.Normalized.isCase_eq {s s' : Stmt} (h : s.Normalized mode s') :
    s'.isCase = s.isCase := by
  cases h <;> rfl

/-- What a switch around the output would own comes from what it owned of the input. -/
theorem normalized_of_atSwitch {s' : Stmt} (body : List Stmt) : ∀ {out : List Stmt},
    normalize mode body = .ok out → OccursVia AtSwitch s' out →
      ∃ s, OccursVia AtSwitch s body ∧ s.Normalized mode s' := by
  induction body using body_induction with
  | nil =>
    intro out h ho
    cases h
    exact absurd ho not_occursVia_nil
  | cons t rest iht ih =>
    intro out h ho
    obtain ⟨t', rest', ht, hr, rfl⟩ := normalize_cons h
    have hn := Stmt.normalized_of_normalize ht
    rcases occursVia_cons.mp ho with rfl | ⟨b', hb', hin, hob⟩ | hor
    · exact ⟨t, .here List.mem_cons_self, hn⟩
    · have hcase : t.isCase = false := hn.isCase_eq.symm.trans hin.2
      obtain ⟨-, hloop, hbodies⟩ := hn.bodies hcase
      obtain ⟨b, hb, hnb⟩ := hbodies b' hb'
      obtain ⟨s, hs, hns⟩ := iht b hb hnb hob
      exact ⟨s, .inside List.mem_cons_self hb ⟨hloop.symm.trans hin.1, hcase⟩ hs, hns⟩
    · obtain ⟨s, hs, hns⟩ := ih hr hor
      exact ⟨s, occursVia_cons.mpr (Or.inr (Or.inr hs)), hns⟩

/-- What a switch around the input would own is normalised, and owned alike in the output. -/
theorem normalized_atSwitch {s : Stmt} (body : List Stmt) : ∀ {out : List Stmt},
    normalize mode body = .ok out → OccursVia AtSwitch s body →
      ∃ s', OccursVia AtSwitch s' out ∧ s.Normalized mode s' := by
  induction body using body_induction with
  | nil => exact fun _ ho => absurd ho not_occursVia_nil
  | cons t rest iht ih =>
    intro out h ho
    obtain ⟨t', rest', ht, hr, rfl⟩ := normalize_cons h
    have hn := Stmt.normalized_of_normalize ht
    rcases occursVia_cons.mp ho with rfl | ⟨b, hb, hin, hob⟩ | hor
    · exact ⟨t', .here List.mem_cons_self, hn⟩
    · obtain ⟨hcase, hloop, -⟩ := hn.bodies hin.2
      obtain ⟨b', hb', hnb⟩ := hn.exists_body hin.2 b hb
      obtain ⟨s', hs', hns⟩ := iht b hb hnb hob
      exact ⟨s', .inside List.mem_cons_self hb' ⟨hloop.trans hin.1, hcase⟩ hs', hns⟩
    · obtain ⟨s', hs', hns⟩ := ih hr hor
      exact ⟨s', occursVia_cons.mpr (Or.inr (Or.inr hs')), hns⟩

/-- Normalising neither adds nor drops a break that leaves the switch around the body. -/
theorem leave_atSwitch_iff (h : normalize mode body = .ok out) :
    OccursVia AtSwitch (.leave none) out ↔ OccursVia AtSwitch (.leave none) body := by
  constructor
  · intro ho
    obtain ⟨s, hs, hn⟩ := normalized_of_atSwitch body h ho
    cases hn
    exact hs
  · intro ho
    obtain ⟨s', hs', hn⟩ := normalized_atSwitch body h ho
    cases hn
    exact hs'

/-- A labelled statement with a break that leaves its loop or switch is in the output iff it is in
the input. -/
theorem labeled_break_iff (h : normalize mode body = .ok out) :
    (∃ label held, OccursVia AtSwitch (.labeled label held) out ∧
      OccursVia AtSwitch (.leave none) held) ↔
    ∃ label held, OccursVia AtSwitch (.labeled label held) body ∧
      OccursVia AtSwitch (.leave none) held := by
  constructor
  · rintro ⟨label, held, hl, hx⟩
    obtain ⟨s, hs, hn⟩ := normalized_of_atSwitch body h hl
    cases hn with
    | plain hb _ => cases hb
    | labeled hheld => exact ⟨label, _, hs, (leave_atSwitch_iff hheld).mp hx⟩
  · rintro ⟨label, held, hl, hx⟩
    obtain ⟨s', hs', hn⟩ := normalized_atSwitch body h hl
    cases hn with
    | plain hb _ => cases hb
    | labeled hheld => exact ⟨label, _, hs', (leave_atSwitch_iff hheld).mpr hx⟩

end

/-! ## The loops of the output -/

section

variable {mode : ClosureMode} {condition : String} {inner : List Stmt}

/-- Retargeting keeps every loop as it is. -/
theorem loop_retarget_iff (body : List Stmt) :
    OccursVia Anywhere (.loop condition inner) (retarget body) ↔
      OccursVia Anywhere (.loop condition inner) body := by
  induction body using body_induction with
  | nil => exact Iff.rfl
  | cons t rest iht ih =>
    rw [retarget, occursVia_cons, occursVia_cons, ih, ← or_assoc, ← or_assoc]
    refine or_congr ?_ Iff.rfl
    cases t with
    | ifThen condition thenBranch elseBranch =>
      cases elseBranch <;> simp_all [Stmt.retarget, elseRetarget, Stmt.bodies, Anywhere]
    | leave label => cases label <;> simp [Stmt.retarget, Stmt.bodies]
    | _ => simp_all [Stmt.retarget, Stmt.bodies, Anywhere]

/-- Trimming keeps every loop as it is. -/
theorem loop_trim_iff (body : List Stmt) :
    OccursVia Anywhere (.loop condition inner) (trim body) ↔
      OccursVia Anywhere (.loop condition inner) body := by
  induction body using body_induction with
  | nil => exact Iff.rfl
  | cons t rest iht ih =>
    rw [trim]
    split
    · rw [occursVia_append, occursVia_cons, ← or_assoc]
      refine or_congr ?_ Iff.rfl
      cases t with
      | ifThen condition thenBranch elseBranch =>
        cases elseBranch <;> simp_all [Stmt.trim, elseTrim, Stmt.bodies, Anywhere, occursVia_cons,
          not_occursVia_nil]
      | leave label => cases label <;> simp [Stmt.trim, Stmt.bodies, occursVia_cons,
          not_occursVia_nil]
      | _ => simp_all [Stmt.trim, Stmt.bodies, Anywhere, occursVia_cons, not_occursVia_nil]
    · rw [occursVia_cons, occursVia_cons, ih]

theorem loop_labelExits_iff (body : List Stmt) :
    OccursVia Anywhere (.loop condition inner) (labelExits body) ↔
      OccursVia Anywhere (.loop condition inner) body := by
  rw [labelExits]
  split
  · simp [occursVia_cons, not_occursVia_nil, Stmt.bodies, Anywhere, loop_retarget_iff]
  · exact Iff.rfl

/-- The loops of a collected group are those of its normalised body. -/
theorem loop_collected_iff {b : Branch Stmt} {g : Group} (h : Collected mode b g) :
    OccursVia Anywhere (.loop condition inner) g.body ↔
      ∃ out, normalize mode b.body = .ok out ∧ OccursVia Anywhere (.loop condition inner) out := by
  obtain ⟨out, hn, hbody⟩ := h.body
  have hiff : OccursVia Anywhere (.loop condition inner) g.body ↔
      OccursVia Anywhere (.loop condition inner) out := by
    rw [hbody, trimIf]
    split
    · exact loop_trim_iff out
    · exact Iff.rfl
  rw [hiff]
  constructor
  · exact fun ho => ⟨out, hn, ho⟩
  · rintro ⟨out', hn', ho⟩
    rw [hn] at hn'
    cases hn'
    exact ho

/-- The group that has become of a branch, and the groups behind it. -/
theorem exists_collected_suffix {branches : List (Branch Stmt)} {groups : List Group}
    (h : List.Forall₂ (Collected mode) branches groups) {b : Branch Stmt} (hb : b ∈ branches) :
    ∃ g rest, g :: rest <:+ groups ∧ Collected mode b g := by
  induction h with
  | nil => cases hb
  | cons hc _ ih =>
    rcases List.mem_cons.mp hb with rfl | hb
    · exact ⟨_, _, List.suffix_refl _, hc⟩
    · obtain ⟨g, rest, hs, hc⟩ := ih hb
      exact ⟨g, rest, hs.trans (List.suffix_cons _ _), hc⟩

/-- A loop in a branch of a merged switch stood in one of the normalised bodies. -/
theorem loop_of_merge {branches : List (Branch Stmt)} {groups : List Group}
    (hg : List.Forall₂ (Collected mode) branches groups) {b : Branch Stmt} (hb : b ∈ merge groups)
    (h : OccursVia Anywhere (.loop condition inner) b.body) :
    ∃ b ∈ branches, ∃ out, normalize mode b.body = .ok out ∧
      OccursVia Anywhere (.loop condition inner) out := by
  obtain ⟨labels, tail, ht, rfl⟩ := mem_merge hb
  obtain ⟨g, hgt, ho⟩ := occursVia_window ((loop_labelExits_iff _).mp h)
  obtain ⟨b, hbb, hc⟩ := collected_of_mem hg (ht.subset hgt)
  exact ⟨b, hbb, (loop_collected_iff hc).mp ho⟩

/-- A loop in the normalised body of a labelled group stands in a branch of the merged switch. -/
theorem loop_in_merge {branches : List (Branch Stmt)} {groups : List Group}
    (hg : collectGroups mode false branches = .ok groups) {b : Branch Stmt} (hb : b ∈ branches)
    (hl : b.labels ≠ []) {out : List Stmt} (hn : normalize mode b.body = .ok out)
    (h : OccursVia Anywhere (.loop condition inner) out) :
    ∃ b ∈ merge groups, OccursVia Anywhere (.loop condition inner) b.body := by
  obtain ⟨g, rest, hs, hc⟩ := exists_collected_suffix (collectGroups_collected hg) hb
  obtain ⟨labels, hmem⟩ := exists_closedBranch_mem_merge hg hs (hc.labels ▸ hl)
  refine ⟨_, hmem, (loop_labelExits_iff _).mpr ?_⟩
  rw [window, occursVia_append]
  exact Or.inl ((loop_collected_iff hc).mpr ⟨out, hn, h⟩)

/-- A loop inside a normalised statement stood in one of the normalised bodies. -/
theorem Stmt.Normalized.loop_inside {s s' : Stmt} (hn : s.Normalized mode s') {b' : List Stmt}
    (hb' : b' ∈ s'.bodies) (ho : OccursVia Anywhere (.loop condition inner) b') :
    ∃ b ∈ s.bodies, ∃ out, Flow.normalize mode b = .ok out ∧
      OccursVia Anywhere (.loop condition inner) out := by
  by_cases hcase : s.isCase = true
  · cases hn with
    | case hg =>
      obtain ⟨c, hc, rfl⟩ := List.mem_map.mp hb'
      obtain ⟨b, hb, hout⟩ := loop_of_merge (collectGroups_collected hg) hc ho
      exact ⟨b.body, List.mem_map.mpr ⟨b, hb, rfl⟩, hout⟩
    | plain _ hcase' => rw [hcase'] at hcase; cases hcase
    | _ => cases hcase
  · obtain ⟨b, hb, hnb⟩ := (hn.bodies (Bool.eq_false_iff.mpr hcase)).2.2 b' hb'
    exact ⟨b, hb, b', hnb, ho⟩

/-- **Every loop of the output is a normalised loop of the input.** -/
theorem loop_of_normalize (body : List Stmt) : ∀ {out : List Stmt},
    normalize mode body = .ok out → OccursVia Anywhere (.loop condition inner) out →
      ∃ source, OccursVia Anywhere (.loop condition source) body ∧
        normalize mode source = .ok inner := by
  induction body using body_induction with
  | nil =>
    intro out h ho
    cases h
    exact absurd ho not_occursVia_nil
  | cons s rest ihs ih =>
    intro out h ho
    obtain ⟨s', rest', hs, hr, rfl⟩ := normalize_cons h
    have hn := Stmt.normalized_of_normalize hs
    rcases occursVia_cons.mp ho with rfl | ⟨b', hb', -, hob⟩ | hor
    · cases hn with
      | plain hb _ => cases hb
      | loop hi => exact ⟨_, .here List.mem_cons_self, hi⟩
    · obtain ⟨b, hb, out, hnb, hob⟩ := hn.loop_inside hb' hob
      obtain ⟨source, hsource, hi⟩ := ihs b hb hnb hob
      exact ⟨source, .inside List.mem_cons_self hb trivial hsource, hi⟩
    · obtain ⟨source, hsource, hi⟩ := ih hr hor
      exact ⟨source, occursVia_cons.mpr (Or.inr (Or.inr hsource)), hi⟩

theorem GroupsLabelled.inside {body b : List Stmt} {t : Stmt} (h : GroupsLabelled body)
    (ht : t ∈ body) (hb : b ∈ t.bodies) : GroupsLabelled b :=
  fun value branches ho => h value branches (.inside ht hb trivial ho)

theorem GroupsLabelled.rest {t : Stmt} {rest : List Stmt} (h : GroupsLabelled (t :: rest)) :
    GroupsLabelled rest :=
  fun value branches ho => h value branches (occursVia_cons.mpr (Or.inr (Or.inr ho)))

/-- **Every loop of the input is a loop of the output**, if no switch has a group without labels. -/
theorem loop_normalize (body : List Stmt) : ∀ {out : List Stmt}, GroupsLabelled body →
    normalize mode body = .ok out → OccursVia Anywhere (.loop condition inner) body →
      ∃ result, OccursVia Anywhere (.loop condition result) out ∧
        normalize mode inner = .ok result := by
  induction body using body_induction with
  | nil => exact fun _ _ ho => absurd ho not_occursVia_nil
  | cons s rest ihs ih =>
    intro out hl h ho
    obtain ⟨s', rest', hs, hr, rfl⟩ := normalize_cons h
    have hn := Stmt.normalized_of_normalize hs
    rcases occursVia_cons.mp ho with rfl | ⟨b, hb, -, hob⟩ | hor
    · cases hn with
      | plain hb _ => cases hb
      | loop hi => exact ⟨_, .here List.mem_cons_self, hi⟩
    · have hlb := hl.inside List.mem_cons_self hb
      by_cases hcase : s.isCase = true
      · cases hn with
        | @case value branches groups hg =>
          obtain ⟨c, hc, rfl⟩ := List.mem_map.mp hb
          obtain ⟨g, others, -, hcol⟩ := exists_collected_suffix (collectGroups_collected hg) hc
          obtain ⟨outc, hnc, -⟩ := hcol.body
          obtain ⟨result, hres, hi⟩ := ihs c.body hb hlb hnc hob
          have hlabels := hl value branches (.here List.mem_cons_self) c hc
          obtain ⟨c', hc', hres⟩ := loop_in_merge hg hc hlabels hnc hres
          exact ⟨result, .inside List.mem_cons_self (List.mem_map.mpr ⟨c', hc', rfl⟩) trivial hres,
            hi⟩
        | plain _ hcase' => rw [hcase'] at hcase; cases hcase
        | _ => cases hcase
      · obtain ⟨b', hb', hnb⟩ := hn.exists_body (Bool.eq_false_iff.mpr hcase) b hb
        obtain ⟨result, hres, hi⟩ := ihs b hb hlb hnb hob
        exact ⟨result, .inside List.mem_cons_self hb' trivial hres, hi⟩
    · obtain ⟨result, hres, hi⟩ := ih hl.rest hr hor
      exact ⟨result, occursVia_cons.mpr (Or.inr (Or.inr hres)), hi⟩

end

/-! ## Breaks and their loops -/

section

variable {mode : ClosureMode} {body out : List Stmt}

theorem loopsClear_normalize (h : normalize mode body = .ok out) (hc : LoopsClear body) :
    LoopsClear out := by
  intro condition inner hl label held hh hx
  obtain ⟨source, hsource, hn⟩ := loop_of_normalize body h hl
  obtain ⟨label', held', hh', hx'⟩ := (labeled_break_iff hn).mp ⟨label, held, hh, hx⟩
  exact hc condition source hsource label' held' hh' hx'

theorem loopsClear_of_normalize (h : normalize mode body = .ok out) (hl : GroupsLabelled body)
    (hc : LoopsClear out) : LoopsClear body := by
  intro condition inner hloop label held hh hx
  obtain ⟨result, hres, hn⟩ := loop_normalize body hl h hloop
  obtain ⟨label', held', hh', hx'⟩ := (labeled_break_iff hn).mpr ⟨label, held, hh, hx⟩
  exact hc condition result hres label' held' hh' hx'

/-- **A break of the output leaves a loop**, where every unlabelled break of the input stands in a
loop or a switch, if no labelled statement of the input stands between a break and its loop. The
condition is necessary where every switch group has a label. -/
theorem normalize_breaks_leave_loops (h : normalize mode body = .ok out) (hb : BreaksOwned body) :
    (BreaksUnlabelled body → BreaksLeaveLoops out) ∧
      (GroupsLabelled body → BreaksLeaveLoops out → BreaksUnlabelled body) := by
  have ht := tight_of_normalize body h
  have hout : ¬ OccursVia OutsideLoops (.leave none) out := fun ho =>
    breaksOwned_iff.mp hb ((leave_atSwitch_iff h).mp (ht.atSwitch ho))
  rw [breaksLeaveLoops_iff ht, breaksUnlabelled_iff]
  exact ⟨fun hc => ⟨hout, loopsClear_normalize h hc⟩,
    fun hl hc => loopsClear_of_normalize h hl hc.2⟩

/-- In a loop, a switch whose labelled group breaks early, and a break out of the loop: the first
break is pointed at the branch's own label, the second stays. -/
theorem normalize_breaks_leave_loops_early : ∃ branches,
    normalize .strict [.loop "c" [.case "x"
      [⟨[.value "1"], false, [.labeled "l" [.ifThen "y" [.leave none] none], .other "a"]⟩,
        ⟨[.otherwise], false, [.other "b"]⟩], .ifThen "z" [.leave none] none]] =
      .ok [.loop "c" [.case "x" branches, .ifThen "z" [.leave none] none]] ∧
    BreaksLeaveLoops [.loop "c" [.case "x" branches, .ifThen "z" [.leave none] none]] := by
  have h : ∃ branches, normalize .strict [.loop "c" [.case "x"
      [⟨[.value "1"], false, [.labeled "l" [.ifThen "y" [.leave none] none], .other "a"]⟩,
        ⟨[.otherwise], false, [.other "b"]⟩], .ifThen "z" [.leave none] none]] =
      .ok [.loop "c" [.case "x" branches, .ifThen "z" [.leave none] none]] := ⟨_, rfl⟩
  obtain ⟨branches, h⟩ := h
  refine ⟨branches, h, (normalize_breaks_leave_loops h (breaksOwned_iff.mpr ?_)).1
    (breaksUnlabelled_iff.mpr ?_)⟩
  · simp [occursVia_cons, not_occursVia_nil, Stmt.bodies, AtSwitch, Stmt.isLoop]
  · simp [LoopsClear, occursVia_cons, not_occursVia_nil, Stmt.bodies, AtSwitch, Stmt.isCase]

/-- A labelled break in a loop stays as it is, and its labelled statement is a `catch` that the break
leaves in place of the loop. -/
theorem normalize_break_in_label :
    BreaksOwned [.loop "c" [.labeled "l" [.leave none]]] ∧
    (∀ mode, normalize mode [.loop "c" [.labeled "l" [.leave none]]] =
      .ok [.loop "c" [.labeled "l" [.leave none]]]) ∧
    ¬ BreaksLeaveLoops [.loop "c" [.labeled "l" [.leave none]]] ∧
    Ruby.bodyLayout true [.loop "c" [.labeled "l" [.leave none]]] =
      [.line "while c", .indented [.line "catch(:break_l) do", .indented [.line "break"],
        .line "end"], .line "end"] := by
  refine ⟨breaksOwned_iff.mpr ?_, fun _ => rfl, fun h => ?_, rfl⟩
  · simp [occursVia_cons, not_occursVia_nil, Stmt.bodies, AtSwitch, Stmt.isLoop]
  · obtain ⟨t, ht, hloop⟩ := h [.loop "c" [.labeled "l" [.leave none]], .labeled "l" [.leave none]]
      (.inside List.mem_cons_self List.mem_cons_self
        (.inside List.mem_cons_self List.mem_cons_self (.here List.mem_cons_self)))
    cases ht
    cases hloop

end

end Rubify.Flow
