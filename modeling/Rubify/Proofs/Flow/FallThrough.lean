import Rubify.Proofs.Flow.Refusal

/-!
# Where control that enters a group comes to

The groups of a switch fall through into one another. `RunsTo mode groups i k` says where control
that enters at group `i` stops: `k` is the first group from `i` on that closes, or the last group.
The branch that stands for group `i` holds what is collected from the groups `i` to `k`, one after
the other, under a label if some break leaves the switch from there.

`normalizeSwitch` goes through the groups once and adds each to the branches that are open, which
comes to what `merge` says of a list of groups. Here the branches are given by position:

* **`normalizeSwitch_fallsThrough`**: a switch gets one branch for every group with values, in
  order, and after them one for the group with the default label, if there is one; every branch runs
  from its group to where control that enters there stops.
-/

namespace Rubify.Flow

/-! ## Runs of groups -/

/-- Control that enters at group `i` comes to group `k`: no group before it closes, and `k` does
unless it is the last. -/
structure RunsTo (mode : ClosureMode) (groups : List (Branch Stmt)) (i k : Nat) : Prop where
  le : i ≤ k
  lt : k < groups.length
  falls : ∀ j, i ≤ j → j < k → ∀ g, groups[j]? = some g → closes mode g.body = false
  stops : k + 1 < groups.length → ∀ g, groups[k]? = some g → closes mode g.body = true

/-- The lists from position `i` to position `k`, one after the other. -/
def through {α : Type} (i k : Nat) (lists : List (List α)) : List α :=
  ((lists.take (k + 1)).drop i).flatten

section

variable {mode : ClosureMode} {groups : List (Branch Stmt)} {g : Branch Stmt} {i k : Nat}

/-- A group in front moves both ends. -/
theorem RunsTo.shift (h : RunsTo mode groups i k) : RunsTo mode (g :: groups) (i + 1) (k + 1) where
  le := Nat.succ_le_succ h.le
  lt := Nat.succ_lt_succ h.lt
  falls j hi hk := by
    obtain ⟨j, rfl⟩ := Nat.exists_eq_succ_of_ne_zero (Nat.ne_of_gt (Nat.zero_lt_of_lt hi))
    exact h.falls j (Nat.le_of_succ_le_succ hi) (Nat.lt_of_succ_lt_succ hk)
  stops hk := h.stops (Nat.lt_of_succ_lt_succ hk)

/-- A group in front that does not close is run first. -/
theorem RunsTo.extend (h : RunsTo mode groups 0 k) (hg : closes mode g.body = false) :
    RunsTo mode (g :: groups) 0 (k + 1) where
  le := Nat.zero_le _
  lt := h.shift.lt
  falls
    | 0, _, _ => by
      rintro _ ⟨⟩
      exact hg
    | j + 1, _, hk => h.shift.falls (j + 1) (Nat.succ_le_succ (Nat.zero_le j)) hk
  stops := h.shift.stops

/-- Control stops in a group that closes or is the last. -/
theorem RunsTo.here (hg : closes mode g.body = true ∨ groups = []) :
    RunsTo mode (g :: groups) 0 0 where
  le := Nat.le_refl 0
  lt := Nat.succ_pos _
  falls j _ hj := absurd hj (Nat.not_lt_zero j)
  stops hlt := by
    rintro _ ⟨⟩
    rcases hg with hg | rfl
    · exact hg
    · exact absurd hlt (Nat.lt_irrefl 1)

/-- **From every group control comes to one where it stops**, and the window of the collected groups
holds what was collected on the way. -/
theorem exists_runsTo {collected : List Group}
    (h : List.Forall₂ (Collected mode) groups collected) : ∀ {i : Nat}, i < groups.length →
      ∃ k, RunsTo mode groups i k ∧
        window (collected.drop i) = through i k (collected.map Group.body) := by
  induction h with
  | nil => exact fun hi => absurd hi (Nat.not_lt_zero _)
  | @cons g c groups collected hc hrest ih =>
    rintro (_ | i) hi
    · rw [List.drop_zero, window, hc.closed]
      by_cases hstop : closes mode g.body = true ∨ groups = []
      · refine ⟨0, .here hstop, ?_⟩
        have hnone : (if closes mode g.body = true then [] else window collected) = [] := by
          rcases hstop with hg | rfl
          · rw [if_pos hg]
          · cases hrest
            exact ite_self _
        rw [hnone]
        simp [through]
      · obtain ⟨hg, hne⟩ := not_or.mp hstop
        obtain ⟨k, hk, hw⟩ := ih (List.length_pos_iff.mpr hne)
        refine ⟨k + 1, hk.extend (Bool.eq_false_iff.mpr hg), ?_⟩
        rw [if_neg hg, ← List.drop_zero (l := collected), hw]
        simp [through]
    · obtain ⟨k, hk, hw⟩ := ih (Nat.lt_of_succ_lt_succ hi)
      exact ⟨k + 1, hk.shift, hw⟩

end

/-! ## Breaks under a label -/

/-- The statement with the breaks that leave the switch around it given the label `switch`. Loops
and switches keep the breaks inside them. -/
inductive Stmt.Relabelled : Stmt → Stmt → Prop
  | leave : Relabelled (.leave none) (.leave (some "switch"))
  | kept {s : Stmt} : s ≠ .leave none → (s.isLoop = true ∨ s.isCase = true ∨ s.bodies = []) →
      Relabelled s s
  | block {body out : List Stmt} :
      List.Forall₂ Relabelled body out → Relabelled (.block body) (.block out)
  | labeled {label : String} {body out : List Stmt} :
      List.Forall₂ Relabelled body out → Relabelled (.labeled label body) (.labeled label out)
  | ifOnly {condition : String} {body out : List Stmt} : List.Forall₂ Relabelled body out →
      Relabelled (.ifThen condition body none) (.ifThen condition out none)
  | ifElse {condition : String} {body out elseBody elseOut : List Stmt} :
      List.Forall₂ Relabelled body out → List.Forall₂ Relabelled elseBody elseOut →
      Relabelled (.ifThen condition body (some elseBody)) (.ifThen condition out (some elseOut))

/-- `out` is `body`, under the label `switch` iff a break leaves the switch from inside `body`. -/
def Wrapped (body out : List Stmt) : Prop :=
  (OccursVia AtSwitch (.leave none) body ∧
      ∃ inner, out = [.labeled "switch" inner] ∧ List.Forall₂ Stmt.Relabelled body inner) ∨
    (¬ OccursVia AtSwitch (.leave none) body ∧ out = body)

theorem relabelled_retarget (body : List Stmt) :
    List.Forall₂ Stmt.Relabelled body (retarget body) := by
  induction body using body_induction with
  | nil => exact .nil
  | cons s rest ihs ih =>
    refine .cons ?_ ih
    cases s with
    | leave label =>
      cases label with
      | none => exact .leave
      | some label => exact .kept (by simp) (Or.inr (Or.inr rfl))
    | comment text => exact .kept (by simp) (Or.inr (Or.inr rfl))
    | other text => exact .kept (by simp) (Or.inr (Or.inr rfl))
    | «return» value => exact .kept (by simp) (Or.inr (Or.inr rfl))
    | raise value => exact .kept (by simp) (Or.inr (Or.inr rfl))
    | loop condition body => exact .kept (by simp) (Or.inl rfl)
    | case value branches => exact .kept (by simp) (Or.inr (Or.inl rfl))
    | block body => exact .block (ihs body (by simp [Stmt.bodies]))
    | labeled label body => exact .labeled (ihs body (by simp [Stmt.bodies]))
    | ifThen condition thenBranch elseBranch =>
      have hthen := ihs thenBranch (by simp [Stmt.bodies])
      cases elseBranch with
      | none => exact .ifOnly hthen
      | some elseBody => exact .ifElse hthen (ihs elseBody (by simp [Stmt.bodies]))

theorem wrapped_labelExits (body : List Stmt) : Wrapped body (labelExits body) := by
  rw [labelExits]
  split
  next he => exact Or.inl ⟨(exits_iff body).mp he, _, rfl, relabelled_retarget body⟩
  next he => exact Or.inr ⟨fun ho => he ((exits_iff body).mpr ho), rfl⟩

/-! ## The branches by position -/

/-- The branch takes the labels and runs from group `i` to where control stops. -/
structure Merged (mode : ClosureMode) (groups : List (Branch Stmt)) (collected : List (List Stmt))
    (labels : List CaseLabel) (i : Nat) (branch : Branch Stmt) : Prop where
  labels : branch.labels = labels
  closed : branch.closed = true
  body : ∃ k, RunsTo mode groups i k ∧ Wrapped (through i k collected) branch.body

/-- The labels of a group other than the default. -/
def valueLabels (g : Branch Stmt) : List CaseLabel :=
  g.labels.filter (· != .otherwise)

/-- The branches of a switch over `groups`, from which `collected` was collected: `regular` stand
for the groups that have values and `last` for the one that has the default label. -/
structure FallsThrough (mode : ClosureMode) (groups : List (Branch Stmt))
    (collected : List (List Stmt)) (regular last : List (Branch Stmt)) : Prop where
  /-- What is collected from a group has lost its closing break if the group closes. -/
  collects : List.Forall₂ (fun g stmts => collect mode (closes mode g.body) g.body =
    .ok (stmts, closes mode g.body)) groups collected
  /-- The groups with values, in order. -/
  forValues : List.Forall₂ (fun gi b => Merged mode groups collected (valueLabels gi.1) gi.2 b)
    (groups.zipIdx.filter fun gi => valueLabels gi.1 != []) regular
  /-- The group with the default label. -/
  forDefault : List.Forall₂ (fun gi b => Merged mode groups collected [.otherwise] gi.2 b)
    (groups.zipIdx.filter fun gi => gi.1.isDefault) last
  oneDefault : groups.countP Branch.isDefault ≤ 1

section

variable {mode : ClosureMode} {groups : List (Branch Stmt)} {collected : List Group}

theorem Merged.shift {bodies : List (List Stmt)} {labels : List CaseLabel} {i : Nat}
    {branch g : Branch Stmt} {stmts : List Stmt} (h : Merged mode groups bodies labels i branch) :
    Merged mode (g :: groups) (stmts :: bodies) labels (i + 1) branch := by
  obtain ⟨k, hk, hw⟩ := h.body
  exact ⟨h.labels, h.closed, k + 1, hk.shift, hw⟩

/-- A branch made of the collected groups runs from the first of them. -/
theorem merged_closedBranch (h : List.Forall₂ (Collected mode) groups collected) (hne : groups ≠ [])
    (labels : List CaseLabel) :
    Merged mode groups (collected.map Group.body) labels 0 (closedBranch labels collected) := by
  obtain ⟨k, hk, hw⟩ := exists_runsTo h (List.length_pos_iff.mpr hne)
  refine ⟨rfl, rfl, k, hk, ?_⟩
  rw [← hw]
  exact wrapped_labelExits _

/-- Branches made for the groups behind the first stand one position later. -/
theorem forall₂_merged_shift (labels : Branch Stmt → List CaseLabel) (p : Branch Stmt → Bool)
    (g : Branch Stmt) (stmts : List Stmt) {bodies : List (List Stmt)}
    {branches : List (Branch Stmt)}
    (h : List.Forall₂ (fun gi b => Merged mode groups bodies (labels gi.1) gi.2 b)
      (groups.zipIdx.filter fun gi => p gi.1) branches) :
    List.Forall₂ (fun gi b => Merged mode (g :: groups) (stmts :: bodies) (labels gi.1) gi.2 b)
      ((groups.zipIdx 1).filter fun gi => p gi.1) branches := by
  rw [List.zipIdx_succ, List.filter_map, List.forall₂_map_left_iff]
  exact h.imp fun _ _ hm => hm.shift

theorem map_value_values (labels : List CaseLabel) :
    (values labels).map .value = labels.filter (· != .otherwise) := by
  induction labels with
  | nil => rfl
  | cons label labels ih =>
    cases label with
    | value text => exact congrArg (CaseLabel.value text :: ·) ih
    | otherwise => exact ih

theorem forall₂_valueBranches (h : List.Forall₂ (Collected mode) groups collected) :
    List.Forall₂
      (fun gi b => Merged mode groups (collected.map Group.body) (valueLabels gi.1) gi.2 b)
      (groups.zipIdx.filter fun gi => valueLabels gi.1 != []) (valueBranches collected) := by
  induction h with
  | nil => exact .nil
  | @cons g c groups collected hc hrest ih =>
    have hlabels : (values c.labels).map .value = valueLabels g := by
      rw [hc.labels]
      exact map_value_values g.labels
    have hbehind := forall₂_merged_shift valueLabels (fun g => valueLabels g != []) g c.body ih
    rw [List.zipIdx_cons, List.filter_cons, valueBranches]
    cases hv : values c.labels with
    | nil =>
      rw [if_neg]
      · exact hbehind
      · rw [← hlabels, hv]
        exact Bool.false_ne_true
    | cons text texts =>
      rw [if_pos]
      · refine .cons ?_ hbehind
        rw [← hv, hlabels]
        exact merged_closedBranch (.cons hc hrest) (List.cons_ne_nil g groups) (valueLabels g)
      · rw [← hlabels, hv]
        rfl

theorem forall₂_defaultBranch (h : List.Forall₂ (Collected mode) groups collected)
    (hone : groups.countP Branch.isDefault ≤ 1) :
    List.Forall₂ (fun gi b => Merged mode groups (collected.map Group.body) [.otherwise] gi.2 b)
      (groups.zipIdx.filter fun gi => gi.1.isDefault) (defaultBranch collected) := by
  induction h with
  | nil => exact .nil
  | @cons g c groups collected hc hrest ih =>
    rw [List.zipIdx_cons, List.filter_cons, defaultBranch, hc.labels]
    by_cases hd : g.isDefault = true
    · -- the groups behind the default have none, and the search has stopped
      have hnone : (groups.zipIdx 1).filter (fun gi => gi.1.isDefault) = [] := by
        rw [List.countP_cons_of_pos hd] at hone
        have hzero : groups.countP Branch.isDefault = 0 := by omega
        rw [List.filter_eq_nil_iff]
        rintro ⟨b, j⟩ hb
        exact List.countP_eq_zero.mp hzero b (List.fst_mem_of_mem_zipIdx hb)
      rw [if_pos hd, hnone, if_pos (show g.labels.contains .otherwise = true from hd)]
      exact .cons (merged_closedBranch (.cons hc hrest) (List.cons_ne_nil g groups) _) .nil
    · rw [List.countP_cons_of_neg hd] at hone
      rw [if_neg hd, if_neg (show ¬ g.labels.contains .otherwise = true from hd)]
      exact forall₂_merged_shift (fun _ => [.otherwise]) Branch.isDefault g c.body (ih hone)

theorem Collected.collect {g : Branch Stmt} {c : Group} (h : Collected mode g c) :
    Flow.collect mode (closes mode g.body) g.body = .ok (c.body, closes mode g.body) := by
  obtain ⟨out, hn, hbody⟩ := h.body
  rw [collect_eq, hn, hbody]
  rfl

end

/-- **The branches of a switch**: one for each group with values, with those values, in the order of
the groups, then one for the group with the default label. A branch holds what is collected from its
group and the groups behind it up to the first that closes, or up to the last group, and this stands
under the label `switch` iff it holds an unlabelled break outside loops and switches. -/
theorem normalizeSwitch_fallsThrough {mode : ClosureMode} {value : String}
    {groups : List (Branch Stmt)} {out : Stmt} (h : normalizeSwitch mode value groups = .ok out) :
    ∃ collected regular last, out = .case value (regular ++ last) ∧
      FallsThrough mode groups collected regular last := by
  rw [normalizeSwitch_eq] at h
  obtain ⟨collected, hg, h⟩ := bind_eq_ok.mp h
  cases h
  have hcol := collectGroups_collected hg
  have hone : groups.countP Branch.isDefault ≤ 1 :=
    Nat.le_of_lt_succ (Nat.not_le.mp (not_appliesTo_of_collectGroups (e := .secondDefault) hg))
  refine ⟨collected.map Group.body, valueBranches collected, defaultBranch collected, rfl, ?_⟩
  exact
    { collects := List.forall₂_map_right_iff.mpr (hcol.imp fun _ _ hc => hc.collect)
      forValues := forall₂_valueBranches hcol
      forDefault := forall₂_defaultBranch hcol hone
      oneDefault := hone }

/-- Four groups: the first leaves the switch early and falls through a group without labels into one
with two values and the default label, which closes; nothing falls into the last. -/
theorem normalizeSwitch_fallsThrough_early :
    normalizeSwitch .strict "v"
      [⟨[.value "1"], false, [.ifThen "x" [.leave none] none, .other "a"]⟩,
        ⟨[], false, [.other "b"]⟩,
        ⟨[.value "2", .otherwise, .value "3"], false, [.other "c", .leave none]⟩,
        ⟨[.value "4"], false, [.loop "y" [.leave none]]⟩] =
      .ok (.case "v"
        [⟨[.value "1"], true, [.labeled "switch"
          [.ifThen "x" [.leave (some "switch")] none, .other "a", .other "b", .other "c"]]⟩,
        ⟨[.value "2", .value "3"], true, [.other "c"]⟩,
        ⟨[.value "4"], true, [.loop "y" [.leave none]]⟩,
        ⟨[.otherwise], true, [.other "c"]⟩]) ∧
    ∃ collected regular last,
      .case "v"
        [⟨[.value "1"], true, [.labeled "switch"
          [.ifThen "x" [.leave (some "switch")] none, .other "a", .other "b", .other "c"]]⟩,
        ⟨[.value "2", .value "3"], true, [.other "c"]⟩,
        ⟨[.value "4"], true, [.loop "y" [.leave none]]⟩,
        ⟨[.otherwise], true, [.other "c"]⟩] = Stmt.case "v" (regular ++ last) ∧
      FallsThrough .strict
        [⟨[.value "1"], false, [.ifThen "x" [.leave none] none, .other "a"]⟩,
          ⟨[], false, [.other "b"]⟩,
          ⟨[.value "2", .otherwise, .value "3"], false, [.other "c", .leave none]⟩,
          ⟨[.value "4"], false, [.loop "y" [.leave none]]⟩] collected regular last :=
  ⟨rfl, normalizeSwitch_fallsThrough rfl⟩

end Rubify.Flow
