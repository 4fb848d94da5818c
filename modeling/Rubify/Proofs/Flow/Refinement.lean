import Rubify.Proofs.Flow.Completion
import Rubify.Proofs.Flow.NormalForm

/-!
# Normalising keeps the meaning of a body

The output of `normalize`, read as selecting, runs like the input, read as falling. The passes over
a branch are followed one by one, each with a lemma on runs:

* `runAll_trim`: a break trimmed away completes normally, which is the same for who stands outside
  the switch (`SameOutside`);
* `runAll_labelExits`: a wrapped branch completes normally where its body breaks out of the switch;
* `entry_merge`: the merged switch enters the branch that runs from the group entered, after the
  same tests in the same order;
* `runAll_window`: that branch runs what falling through the groups runs.

In `compatible` mode an `if` without `else` can close a group that does complete normally. Control
falls on from such a group in the input and not in the output, so runs that pass one are set aside
(`Outcome.Keeps`). In `strict` mode there are none.

Headline: **`normalize_refines`**.
-/

namespace Rubify.Flow

variable {σ ν : Type} {m : Meaning σ ν} {r : Reading} {n : Nat}

/-! ## Outcomes up to the groups passed -/

namespace Outcome

/-- The outcome without the groups passed: what can be observed of a run. -/
def shown (o : Outcome σ) : Outcome σ := { o with passed := [] }

/-- No group that closes was passed. -/
def Keeps (mode : ClosureMode) (o : Outcome σ) : Prop := ∀ g ∈ o.passed, closes mode g = false

theorem shown_caught (o : Outcome σ) (e : Ending) : (o.caught e).shown = o.shown.caught e := by
  by_cases h : o.ending = e
  · simp [caught, shown, h]
  · simp [caught, shown, h]

theorem caught_of_ne {o : Outcome σ} {e : Ending} (h : o.ending ≠ e) : o.caught e = o := if_neg h

theorem caught_after (o : Outcome σ) (e : Ending) (passed : List (List Stmt)) :
    (o.after passed).caught e = (o.caught e).after passed := by
  by_cases h : o.ending = e
  · simp [caught, after, h]
  · simp [caught, after, h]

theorem Keeps.caught {mode : ClosureMode} {o : Outcome σ} {e : Ending}
    (h : (o.caught e).Keeps mode) : o.Keeps mode := by
  unfold Keeps at h
  rwa [caught_passed] at h

theorem Keeps.of_after {mode : ClosureMode} {o : Outcome σ} {passed : List (List Stmt)}
    (h : (o.after passed).Keeps mode) : (∀ g ∈ passed, closes mode g = false) ∧ o.Keeps mode :=
  ⟨fun g hg => h g (List.mem_append_left _ hg), fun g hg => h g (List.mem_append_right _ hg)⟩

/-- Two runs that show the same so far show the same when what follows does. -/
theorem andThen_shown {mode : ClosureMode} {o₁ o : Outcome σ}
    {next next' : World σ → Option (Outcome σ)} (h : o₁.andThen next = some o) (hk : o.Keeps mode)
    (hnext : ∀ o₂, next o₁.world = some o₂ → o₂.Keeps mode → next' o₁.world = some o₂.shown) :
    o₁.Keeps mode ∧ o₁.shown.andThen next' = some o.shown := by
  rcases andThen_eq_some.mp h with ⟨hn, o₂, hr, rfl⟩ | ⟨hn, rfl⟩
  · obtain ⟨hk₁, hk₂⟩ := hk.of_after
    refine ⟨hk₁, ?_⟩
    rw [andThen_of_normal (o := o₁.shown) hn]
    show (next' o₁.world).map _ = _
    rw [hnext o₂ hr hk₂]
    rfl
  · exact ⟨hk, andThen_of_ne (o := o₁.shown) hn next'⟩

end Outcome

/-- Comments run to nothing. -/
theorem runAll_comments {rest : List Stmt} (h : rest.all Stmt.isComment = true) (w : World σ) :
    runAll m r n rest w = some (.of .normal w) := by
  induction rest with
  | nil => rfl
  | cons s rest ih =>
    rw [List.all_cons, Bool.and_eq_true] at h
    cases s with
    | comment text =>
      rw [runAll, Stmt.run]
      simp [Outcome.andThen, ih h.2, Outcome.of, Outcome.after]
    | _ => cases h.1

theorem Outcome.andThen_comments {rest : List Stmt} (h : rest.all Stmt.isComment = true)
    (o : Outcome σ) : o.andThen (runAll m r n rest) = some o := by
  by_cases hn : o.ending = .normal
  · rw [Outcome.andThen_of_normal hn, runAll_comments h]
    simp [Outcome.of, Outcome.after, ← hn]
  · exact Outcome.andThen_of_ne hn _

/-- A statement alone runs as it does. -/
theorem runAll_singleton (s : Stmt) (w : World σ) : runAll m r n [s] w = s.run m r n w := by
  rw [runAll]
  cases s.run m r n w with
  | none => rfl
  | some o =>
    show o.andThen (runAll m r n []) = some o
    exact o.andThen_comments rfl

/-! ## Trimming -/

/-- The two outcomes are the same for who stands outside the switch. -/
def Outcome.SameOutside (o o' : Outcome σ) : Prop :=
  o.caught (.leave none) = o'.caught (.leave none)

theorem Outcome.SameOutside.after {o o' : Outcome σ} (h : o.SameOutside o')
    (passed : List (List Stmt)) : (o.after passed).SameOutside (o'.after passed) := by
  unfold SameOutside at h ⊢
  rw [caught_after, caught_after, h]

/-- A trimmed statement runs as the statement does, except that the breaks trimmed away complete
normally, if this is so of the bodies inside. -/
theorem Stmt.run_trim {s : Stmt}
    (ih : ∀ b ∈ s.bodies, ∀ {w : World σ} {o : Outcome σ}, runAll m r n b w = some o →
      ∃ o', runAll m r n (Flow.trim b) w = some o' ∧ o'.SameOutside o)
    {w : World σ} {o : Outcome σ} (h : s.run m r n w = some o) :
    ∃ o', runAll m r n s.trim w = some o' ∧ o'.SameOutside o := by
  have same : runAll m r n [s] w = some o := (runAll_singleton s w).trans h
  cases s with
  | leave label =>
    cases label with
    | none =>
      cases h
      exact ⟨.of .normal w, rfl, rfl⟩
    | some label => exact ⟨o, same, rfl⟩
  | block body =>
    obtain ⟨o', hr, ho⟩ := ih body (List.mem_singleton_self body) h
    exact ⟨o', (runAll_singleton _ w).trans hr, ho⟩
  | ifThen condition thenBranch elseBranch =>
    rw [Stmt.trim, runAll_singleton]
    rcases run_ifThen_eq m n condition w with ⟨w', heq⟩ | ⟨w', heq⟩ <;> rw [heq] at h ⊢
    · exact ih thenBranch List.mem_cons_self h
    · cases elseBranch with
      | none => exact ⟨o, h, rfl⟩
      | some elseBody => exact ih elseBody (by simp [Stmt.bodies]) h
  | _ => exact ⟨o, same, rfl⟩

/-- A trimmed body runs as the body does, except that the breaks trimmed away complete normally. -/
theorem runAll_trim (body : List Stmt) : ∀ {w : World σ} {o : Outcome σ},
    runAll m r n body w = some o →
      ∃ o', runAll m r n (trim body) w = some o' ∧ o'.SameOutside o := by
  induction body using body_induction with
  | nil =>
    intro w o h
    exact ⟨o, h, rfl⟩
  | cons s rest hs hrest =>
    intro w o h
    obtain ⟨o₁, hrun, h⟩ := runAll_cons.mp h
    rw [trim]
    split
    · rename_i hcom
      rw [Outcome.andThen_comments hcom] at h
      cases h
      obtain ⟨o', hr, ho⟩ := Stmt.run_trim hs hrun
      exact ⟨o', by rw [runAll_append hr, Outcome.andThen_comments hcom], ho⟩
    · rcases Outcome.andThen_eq_some.mp h with ⟨hn, o₂, hr, rfl⟩ | ⟨hn, rfl⟩
      · obtain ⟨o', hr', ho⟩ := hrest hr
        refine ⟨o'.after o₁.passed, runAll_cons.mpr ⟨o₁, hrun, ?_⟩, ho.after _⟩
        rw [Outcome.andThen_of_normal hn, hr']
        rfl
      · exact ⟨o₁, runAll_cons.mpr ⟨o₁, hrun, Outcome.andThen_of_ne hn _⟩, rfl⟩

/-! ## Wrapping exits -/

/-- The outcome with an unlabelled break pointed at `exitLabel`. -/
def Outcome.retarget (o : Outcome σ) : Outcome σ :=
  if o.ending = .leave none then { o with ending := .leave (some exitLabel) } else o

theorem Outcome.retarget_of_ne {o : Outcome σ} (h : o.ending ≠ .leave none) : o.retarget = o :=
  if_neg h

theorem Outcome.retarget_andThen {o : Outcome σ} {next next' : World σ → Option (Outcome σ)}
    {o' : Outcome σ} (h : o.andThen next = some o')
    (hnext : ∀ o₂, next o.world = some o₂ → next' o.world = some o₂.retarget) :
    o.retarget.andThen next' = some o'.retarget := by
  rcases andThen_eq_some.mp h with ⟨hn, o₂, hr, rfl⟩ | ⟨hn, rfl⟩
  · have hne : o.ending ≠ .leave none := by rw [hn]; simp
    rw [retarget_of_ne hne, andThen_of_normal hn, hnext o₂ hr, Option.map_some]
    congr 1
    by_cases h₂ : o₂.ending = .leave none
    · simp [retarget, after, h₂]
    · simp [retarget, after, h₂]
  · by_cases hl : o.ending = .leave none
    · exact andThen_of_ne (by simp [retarget, hl]) next'
    · rw [retarget_of_ne hl, andThen_of_ne hn]

/-- Catching commutes with retargeting unless the wrapper's own label is caught. -/
theorem Outcome.retarget_caught {label : String} (hl : label ≠ exitLabel) (o : Outcome σ) :
    o.retarget.caught (.leave (some label)) = (o.caught (.leave (some label))).retarget := by
  by_cases hn : o.ending = .leave none
  · simp [retarget, caught, hn, Ne.symm hl]
  · by_cases hc : o.ending = .leave (some label)
    · simp [retarget, caught, hc]
    · simp [retarget, caught, hc, hn]

/-- A switch in a tight body is not left by an unlabelled break. -/
theorem Tight.run_case_ne {body : List Stmt} (ht : Tight body) {value : String}
    {branches : List (Branch Stmt)} (hm : Stmt.case value branches ∈ body) {w : World σ}
    {o : Outcome σ} (h : (Stmt.case value branches).run m r n w = some o) :
    o.ending ≠ .leave none := by
  intro he
  have ho : OccursVia OutsideLoops (.leave none) [.case value branches] :=
    (runAll_leave [.case value branches] ((runAll_singleton _ w).trans h) he).mono
      fun t b hi => hi rfl
  rcases occursVia_cons.mp ho with hc | ⟨b, hb, -, hob⟩ | hor
  · cases hc
  · exact ht.not_loose_inside hm rfl hb hob
  · exact not_occursVia_nil hor

/-- A retargeted body runs as the body does, and breaks to `exitLabel` instead of breaking without
a label. -/
theorem runAll_retarget (body : List Stmt) : ∀ {w : World σ} {o : Outcome σ}, Tight body →
    (∀ inner, ¬ OccursVia AtSwitch (.labeled exitLabel inner) body) →
    runAll m r n body w = some o → runAll m r n (retarget body) w = some o.retarget := by
  induction body using body_induction with
  | nil =>
    intro w o _ _ h
    cases h
    rfl
  | cons s rest hs hrest =>
    intro w o ht hw h
    obtain ⟨o₁, hrun, h⟩ := runAll_cons.mp h
    have hr := Outcome.retarget_andThen h fun o₂ => hrest ht.rest fun inner ho =>
      hw inner (occursVia_cons.mpr (Or.inr (Or.inr ho)))
    have hin : ∀ b ∈ s.bodies, AtSwitch s b → ∀ {w : World σ} {o : Outcome σ},
        runAll m r n b w = some o → runAll m r n (retarget b) w = some o.retarget :=
      fun b hb hi => hs b hb (ht.inside List.mem_cons_self hb) fun inner ho =>
        hw inner (.inside List.mem_cons_self hb hi ho)
    refine runAll_cons.mpr ⟨o₁.retarget, ?_, hr⟩
    cases s with
    | comment text => cases hrun; rfl
    | other text => cases hrun; rfl
    | «return» value => cases hrun; rfl
    | raise value => cases hrun; rfl
    | leave label => cases label <;> cases hrun <;> rfl
    | block body => exact hin body (List.mem_singleton_self body) ⟨rfl, rfl⟩ hrun
    | labeled label body =>
      obtain ⟨o₂, hb, rfl⟩ := Option.map_eq_some_iff.mp hrun
      have hl : label ≠ exitLabel := by
        rintro rfl
        exact hw body (.here List.mem_cons_self)
      rw [Stmt.retarget, Stmt.run, hin body (List.mem_singleton_self body) ⟨rfl, rfl⟩ hb,
        Option.map_some, Outcome.retarget_caught hl]
    | ifThen condition thenBranch elseBranch =>
      rw [Stmt.retarget]
      rcases run_ifThen_eq m n condition w with ⟨w', heq⟩ | ⟨w', heq⟩ <;> rw [heq] at hrun ⊢
      · exact hin thenBranch List.mem_cons_self ⟨rfl, rfl⟩ hrun
      · cases elseBranch with
        | none => cases hrun; rfl
        | some elseBody => exact hin elseBody (by simp [Stmt.bodies]) ⟨rfl, rfl⟩ hrun
    | loop condition body =>
      -- the loop catches its own breaks
      obtain ⟨o₂, -, rfl⟩ := Option.map_eq_some_iff.mp hrun
      rw [Outcome.retarget_of_ne fun he => (Outcome.caught_leave he).2 rfl]
      exact hrun
    | case value branches =>
      rw [Outcome.retarget_of_ne (ht.run_case_ne List.mem_cons_self hrun)]
      exact hrun

/-- A branch whose exits are wrapped runs as its body does, and completes normally where that breaks
out of the switch. -/
theorem runAll_labelExits {body : List Stmt} {w : World σ} {o : Outcome σ} (ht : Tight body)
    (hw : ∀ inner, ¬ OccursVia AtSwitch (.labeled exitLabel inner) body)
    (h : runAll m r n body w = some o) (he : o.ending ≠ .leave (some exitLabel)) :
    runAll m r n (labelExits body) w = some (o.caught (.leave none)) := by
  rw [labelExits]
  split
  · rw [runAll_singleton, Stmt.run, runAll_retarget body ht hw h, Option.map_some]
    congr 1
    by_cases hn : o.ending = .leave none
    · simp [Outcome.retarget, Outcome.caught, hn]
    · rw [Outcome.retarget_of_ne hn, Outcome.caught_of_ne hn, Outcome.caught_of_ne he]
  · rename_i hx
    have hn : o.ending ≠ .leave none := fun hn =>
      hx ((exits_iff body).mpr (ht.atSwitch ((runAll_leave body h hn).mono fun t b hi => hi rfl)))
    rw [Outcome.caught_of_ne hn, h]

/-! ## Entering a merged switch -/

/-- A switch over the groups enters one of them where the merged switch enters the branch that runs
from this group on. -/
inductive Enters (groups : List Group) (branches : List (Branch Stmt)) :
    Option Nat → Option Nat → Prop
  | none : Enters groups branches none none
  | some {i j : Nat} {labels : List CaseLabel} :
      branches[j]? = some (closedBranch labels (groups.drop i)) →
      Enters groups branches (some i) (some j)

theorem Enters.skip {g : Group} {groups : List Group} {branches : List (Branch Stmt)}
    {i j : Option Nat} (h : Enters groups branches i j) :
    Enters (g :: groups) branches (i.map (· + 1)) j := by
  cases h with
  | none => exact .none
  | some hb => exact .some hb

theorem Enters.append_left {groups : List Group} {branches : List (Branch Stmt)}
    {i j : Option Nat} (h : Enters groups branches i j) (front : List (Branch Stmt)) :
    Enters groups (front ++ branches) i (j.map (· + front.length)) := by
  cases h with
  | none => exact .none
  | @some i j labels hb =>
    have hb' : (front ++ branches)[j + front.length]? = branches[j]? := by
      rw [List.getElem?_append_right (Nat.le_add_left _ _), Nat.add_sub_cancel]
    exact .some (hb'.trans hb)

theorem Enters.append_right {groups : List Group} {branches : List (Branch Stmt)}
    {i j : Option Nat} (h : Enters groups branches i j) (back : List (Branch Stmt)) :
    Enters groups (branches ++ back) i j := by
  cases h with
  | none => exact .none
  | some hb =>
    obtain ⟨hlt, -⟩ := List.getElem?_eq_some_iff.mp hb
    exact .some ((List.getElem?_append_left hlt).trans hb)

/-- The value branches are hit where the groups are. -/
theorem firstHit_valueBranches (v : ν) : ∀ (groups : List Group) (w : World σ),
    ∃ j, m.firstHit v ((valueBranches groups).map Branch.labels) w =
        (j, (m.firstHit v (groups.map Group.labels) w).2) ∧
      Enters groups (valueBranches groups) (m.firstHit v (groups.map Group.labels) w).1 j
  | [], w => ⟨none, rfl, .none⟩
  | g :: rest, w => by
    rw [List.map_cons]
    cases hv : values g.labels with
    | nil =>
      obtain ⟨j, hj, he⟩ := firstHit_valueBranches v rest w
      have hb : valueBranches (g :: rest) = valueBranches rest := by rw [valueBranches, hv]
      have hmiss : m.hitsAny v (values g.labels) w = (false, w) := by rw [hv]; rfl
      rw [hb, hj, firstHit_of_miss hmiss]
      exact ⟨j, rfl, he.skip⟩
    | cons text texts =>
      have hb : valueBranches (g :: rest) =
          closedBranch ((values g.labels).map .value) (g :: rest) :: valueBranches rest := by
        rw [valueBranches, hv]
      -- the branch is hit by the values that hit the group
      have hval : values (closedBranch ((values g.labels).map .value) (g :: rest)).labels =
          values g.labels := values_map_value _
      rw [hb, List.map_cons]
      rcases hh : m.hitsAny v (values g.labels) w with ⟨_ | _, w'⟩
      · obtain ⟨j, hj, he⟩ := firstHit_valueBranches v rest w'
        rw [firstHit_of_miss hh, firstHit_of_miss (hval.symm ▸ hh), hj]
        exact ⟨_, rfl, he.skip.append_left [_]⟩
      · rw [firstHit_of_hit hh, firstHit_of_hit (hval.symm ▸ hh)]
        exact ⟨_, rfl, .some rfl⟩

/-- Groups without values are not hit. -/
theorem firstHit_of_no_values (v : ν) (w : World σ) : ∀ {groups : List (List CaseLabel)},
    (∀ l ∈ groups, values l = []) → m.firstHit v groups w = (none, w)
  | [], _ => rfl
  | l :: rest, h => by
    have hmiss : m.hitsAny v (values l) w = (false, w) := by rw [h l List.mem_cons_self]; rfl
    rw [firstHit_of_miss hmiss,
      firstHit_of_no_values v w fun l' hl' => h l' (List.mem_cons_of_mem l hl')]
    rfl

theorem firstHit_append (v : ν) {ys : List (List CaseLabel)} (hys : ∀ l ∈ ys, values l = []) :
    ∀ (xs : List (List CaseLabel)) (w : World σ), m.firstHit v (xs ++ ys) w = m.firstHit v xs w
  | [], w => firstHit_of_no_values v w hys
  | x :: xs, w => by
    rw [List.cons_append]
    rcases hh : m.hitsAny v (values x) w with ⟨_ | _, w'⟩
    · rw [firstHit_of_miss hh, firstHit_of_miss hh, firstHit_append v hys xs]
    · rw [firstHit_of_hit hh, firstHit_of_hit hh]

/-- The default branch is found where the default group is. -/
theorem enters_defaultBranch : ∀ groups : List Group,
    Enters groups (defaultBranch groups)
      ((groups.map Group.labels).findIdx? (·.contains .otherwise))
      (((defaultBranch groups).map Branch.labels).findIdx? (·.contains .otherwise))
  | [] => .none
  | g :: rest => by
    rw [defaultBranch, List.map_cons, List.findIdx?_cons]
    split
    · exact .some rfl
    · exact (enters_defaultBranch rest).skip

/-- **A merged switch enters the branch that runs from the group entered**, after the same tests. -/
theorem entry_merge (v : ν) (groups : List Group) (w : World σ) :
    ∃ j, m.entry v ((merge groups).map Branch.labels) w =
        (j, (m.entry v (groups.map Group.labels) w).2) ∧
      Enters groups (merge groups) (m.entry v (groups.map Group.labels) w).1 j := by
  obtain ⟨j, hj, he⟩ := firstHit_valueBranches (m := m) v groups w
  have hdefault : ∀ l ∈ (defaultBranch groups).map Branch.labels, values l = [] := by
    rcases defaultBranch_cases groups with ⟨hb, -⟩ | ⟨g, rest, -, -, hb⟩
    · simp [hb]
    · simp [hb, closedBranch, values]
  have hfirst : m.firstHit v ((merge groups).map Branch.labels) w =
      (j, (m.firstHit v (groups.map Group.labels) w).2) := by
    rw [merge, List.map_append, firstHit_append v hdefault, hj]
  unfold Meaning.entry
  rw [hfirst]
  rcases hg : m.firstHit v (groups.map Group.labels) w with ⟨_ | i, w'⟩ <;> rw [hg] at he
  · cases he
    -- no value branch has a default label, so the default branch is found behind them
    have hregular : ((valueBranches groups).map Branch.labels).findIdx?
        (·.contains .otherwise) = none := by
      rw [List.findIdx?_eq_none_iff]
      intro labels hl
      obtain ⟨b, hb, rfl⟩ := List.mem_map.mp hl
      simpa using (not_otherwise_of_mem_valueBranches hb).2
    refine ⟨_, rfl, ?_⟩
    rw [merge, List.map_append, List.findIdx?_append, hregular, Option.none_or, List.length_map]
    exact (enters_defaultBranch groups).append_left _
  · cases he with
    | some hb => exact ⟨_, rfl, (Enters.some hb).append_right _⟩

theorem select_merge (value : String) (groups : List Group) (w : World σ) :
    ∃ j, m.select value ((merge groups).map Branch.labels) w =
        (j, (m.select value (groups.map Group.labels) w).2) ∧
      Enters groups (merge groups) (m.select value (groups.map Group.labels) w).1 j :=
  entry_merge _ groups _

/-- A switch that selects runs the branch at the index. -/
theorem runFrom_selecting {b : Branch Stmt} (w : World σ) :
    ∀ {branches : List (Branch Stmt)} {j : Nat}, branches[j]? = some b →
      runFrom m .selecting n branches j w = runAll m .selecting n b.body w
  | b' :: rest, 0, h => by
    cases h
    rw [runFrom]
    cases runAll m .selecting n b.body w <;> rfl
  | b' :: rest, j + 1, h => by
    rw [runFrom]
    exact runFrom_selecting w h

/-! ## Falling through the groups -/

/-- Running the normalised body, read as selecting, shows what running the body, read as falling,
does. -/
def Refines (m : Meaning σ ν) (n : Nat) (mode : ClosureMode) (body : List Stmt) : Prop :=
  ∀ {out : List Stmt} {w : World σ} {o : Outcome σ}, normalize mode body = .ok out →
    AvoidsLabel exitLabel body → runAll m .falling n body w = some o → o.Keeps mode →
    runAll m .selecting n out w = some o.shown

/-- **A window runs as the groups do from the first on**, up to breaks out of the switch. -/
theorem runAll_window {mode : ClosureMode} {branches : List (Branch Stmt)} {groups : List Group}
    (hg : List.Forall₂ (Collected mode) branches groups)
    (hr : ∀ b ∈ branches, Refines m n mode b.body)
    (ha : ∀ b ∈ branches, AvoidsLabel exitLabel b.body) {i : Nat} {w : World σ} {o : Outcome σ}
    (h : runFrom m .falling n branches i w = some o) (hk : o.Keeps mode) :
    ∃ o', runAll m .selecting n (window (groups.drop i)) w = some o' ∧ o'.SameOutside o.shown := by
  induction hg generalizing i w o with
  | nil =>
    cases h
    rw [List.drop_nil]
    exact ⟨_, rfl, rfl⟩
  | @cons b g branches groups hc hg ih =>
    have ih := @ih (fun b' hb' => hr b' (List.mem_cons_of_mem b hb'))
      (fun b' hb' => ha b' (List.mem_cons_of_mem b hb'))
    cases i with
    | succ i => exact ih h hk
    | zero =>
      obtain ⟨out, hn, hbody⟩ := hc.body
      obtain ⟨o₁, hb, hcase⟩ := runFrom_falling_cons.mp h
      have hb' : o₁.Keeps mode → runAll m .selecting n out w = some o₁.shown :=
        hr b List.mem_cons_self hn (ha b List.mem_cons_self) hb
      rw [List.drop_zero, window]
      rcases hcase with ⟨hnorm, o₂, hrest, rfl⟩ | ⟨hne, rfl⟩
      · -- the group was passed, so it does not close and control falls into the next one
        obtain ⟨hk₁, hk₂⟩ := hk.of_after
        have hopen : closes mode b.body = false :=
          hk₁ b.body (List.mem_append_right _ (List.mem_singleton_self _))
        have hb' := hb' fun g' hg' => hk₁ g' (List.mem_append_left _ hg')
        obtain ⟨o', hw, ho⟩ := ih hrest hk₂
        rw [List.drop_zero] at hw
        refine ⟨o', ?_, ho⟩
        rw [hbody, hc.closed, hopen, trimIf, if_neg Bool.false_ne_true, if_neg Bool.false_ne_true,
          runAll_append hb', Outcome.andThen_of_normal (o := o₁.shown) hnorm]
        exact (congrArg _ hw).trans rfl
      · have hb' := hb' hk
        rw [hbody, hc.closed, trimIf]
        split
        · rw [List.append_nil]
          exact runAll_trim out hb'
        · rw [runAll_append hb', Outcome.andThen_of_ne (o := o₁.shown) hne]
          exact ⟨_, rfl, rfl⟩

/-! ## Normalising refines -/

theorem coarse_atSwitch : Coarse AtSwitch :=
  fun _ _ _ _ hi hl _ hc' => ⟨hl ▸ hi.1, hc'⟩

/-- Outside inner switches, normalising adds no labels. -/
theorem labeled_of_normalize {mode : ClosureMode} {label : String} {inner : List Stmt}
    (body : List Stmt) : ∀ {out : List Stmt}, normalize mode body = .ok out →
      OccursVia AtSwitch (.labeled label inner) out →
      ∃ inner', OccursVia Anywhere (.labeled label inner') body := by
  induction body using body_induction with
  | nil =>
    intro out h ho
    cases h
    exact absurd ho not_occursVia_nil
  | cons s rest hs hrest =>
    intro out h ho
    obtain ⟨s', rest', hs', hr, rfl⟩ := normalize_cons h
    have hn := Stmt.normalized_of_normalize hs'
    rcases occursVia_cons.mp ho with hc | ⟨b', hb', hi, hob⟩ | hor
    · cases hn with
      | plain hb _ => rw [← hc] at hb; cases hb
      | labeled _ =>
        cases hc
        exact ⟨_, .here List.mem_cons_self⟩
      | _ => cases hc
    · have hcase : s.isCase = false := by
        cases hn with
        | case _ => exact absurd hi.2 (by simp [Stmt.isCase])
        | plain _ hc => exact hc
        | _ => rfl
      obtain ⟨b, hb, hnb⟩ := (hn.bodies hcase).2.2 b' hb'
      obtain ⟨inner', ho'⟩ := hs b hb hnb hob
      exact ⟨inner', .inside List.mem_cons_self hb trivial ho'⟩
    · obtain ⟨inner', ho'⟩ := hrest hr hor
      exact ⟨inner', occursVia_cons.mpr (Or.inr (Or.inr ho'))⟩

/-- Loops refine if their bodies do. -/
theorem loop_refines {mode : ClosureMode} {condition : String}
    {body body' : World σ → Option (Outcome σ)}
    (hb : ∀ {w o}, body w = some o → o.Keeps mode → body' w = some o.shown) :
    ∀ {k : Nat} {w : World σ} {o : Outcome σ}, m.loop condition body k w = some o →
      o.Keeps mode → m.loop condition body' k w = some o.shown
  | k + 1, w, o, h, hk => by
    rw [Meaning.loop] at h ⊢
    rcases hd : m.decide condition w with ⟨_ | _, w'⟩ <;> rw [hd] at h
    · cases h
      rfl
    · obtain ⟨o₁, hrun, h⟩ := Option.bind_eq_some_iff.mp h
      obtain ⟨hk₁, hnext⟩ := Outcome.andThen_shown h hk fun o₂ => loop_refines hb
      exact Option.bind_eq_some_iff.mpr ⟨o₁.shown, hb hrun hk₁, hnext⟩

section

variable {mode : ClosureMode} {branches : List (Branch Stmt)} {groups tail : List Group}

theorem tight_window (hg : List.Forall₂ (Collected mode) branches groups) (ht : tail <:+ groups) :
    Tight (window tail) := by
  intro value inner ho
  obtain ⟨b, -, out, hn, ho⟩ :=
    occursVia_of_window coarse_anywhere (by simp) (by simp) hg ht ho
  exact tight_of_normalize b.body hn value inner ho

theorem not_labeled_window (hg : List.Forall₂ (Collected mode) branches groups)
    (ha : ∀ b ∈ branches, AvoidsLabel exitLabel b.body) (ht : tail <:+ groups) (inner : List Stmt) :
    ¬ OccursVia AtSwitch (.labeled exitLabel inner) (window tail) := by
  intro ho
  obtain ⟨b, hb, out, hn, ho⟩ :=
    occursVia_of_window coarse_atSwitch (by simp) (by simp) hg ht ho
  obtain ⟨inner', ho⟩ := labeled_of_normalize b.body hn ho
  exact (ha b hb).1 inner' ho

/-- Groups that do not name `exitLabel` do not break to it. -/
theorem runFrom_ne_exit (ha : ∀ b ∈ branches, AvoidsLabel exitLabel b.body) {i : Nat} {w : World σ}
    {o : Outcome σ} (h : runFrom m r n branches i w = some o) :
    o.ending ≠ .leave (some exitLabel) := by
  intro he
  obtain ⟨body, hmem, w', o', hrun, he'⟩ := (runFrom_fromBodies h).leave he
  obtain ⟨b, hb, rfl⟩ := List.mem_map.mp hmem
  exact (ha b hb).2 ((runAll_leave b.body hrun he').mono fun _ _ _ => trivial)

/-- A switch refines if the bodies of its groups do. -/
theorem case_refines {value : String} (hg : List.Forall₂ (Collected mode) branches groups)
    (hr : ∀ b ∈ branches, Refines m n mode b.body)
    (ha : ∀ b ∈ branches, AvoidsLabel exitLabel b.body) {w : World σ} {o : Outcome σ}
    (h : (Stmt.case value branches).run m .falling n w = some o) (hk : o.Keeps mode) :
    (Stmt.case value (merge groups)).run m .selecting n w = some o.shown := by
  obtain ⟨j, hj, he⟩ := select_merge (m := m) value groups w
  rw [Stmt.run, ← forall₂_labels hg] at h
  rw [Stmt.run, hj]
  rcases hs : m.select value (groups.map Group.labels) w with ⟨_ | i, w'⟩ <;> rw [hs] at h he
  · cases he
    cases h
    rfl
  · cases he with
    | some hb =>
      obtain ⟨o₁, hf, rfl⟩ := Option.map_eq_some_iff.mp h
      obtain ⟨o', hw, ho⟩ := runAll_window hg hr ha hf hk.caught
      have hexit : o'.ending ≠ .leave (some exitLabel) := by
        intro he'
        have hcaught : (o'.caught (.leave none)).ending = .leave (some exitLabel) := by
          rw [Outcome.caught_of_ne (by rw [he']; simp), he']
        rw [ho] at hcaught
        exact runFrom_ne_exit ha hf (Outcome.caught_leave hcaught).1
      have ht := List.drop_suffix i groups
      show runFrom m .selecting n (merge groups) _ w' = some (o₁.caught (.leave none)).shown
      rw [runFrom_selecting w' hb, closedBranch,
        runAll_labelExits (tight_window hg ht) (not_labeled_window hg ha ht) hw hexit, ho,
        Outcome.shown_caught]

end

/-- A statement refines if the bodies inside it do. -/
theorem Stmt.Normalized.refines {mode : ClosureMode} {s s' : Stmt} (hn : s.Normalized mode s')
    (hr : ∀ b ∈ s.bodies, Refines m n mode b) (ha : ∀ b ∈ s.bodies, AvoidsLabel exitLabel b)
    {w : World σ} {o : Outcome σ} (h : s.run m .falling n w = some o) (hk : o.Keeps mode) :
    s'.run m .selecting n w = some o.shown := by
  cases hn with
  | plain hb hc =>
    cases s with
    | case value branches => cases hc
    | comment text => cases h; rfl
    | other text => cases h; rfl
    | leave label => cases h; rfl
    | «return» value => cases h; rfl
    | raise value => cases h; rfl
    | _ => cases hb
  | block hb => exact hr _ (List.mem_singleton_self _) hb (ha _ (List.mem_singleton_self _)) h hk
  | ifOnly hb =>
    rename_i condition body out
    rcases run_ifThen_eq m n condition w with ⟨w', heq⟩ | ⟨w', heq⟩ <;> rw [heq] at h ⊢
    · exact hr body List.mem_cons_self hb (ha body List.mem_cons_self) h hk
    · cases h
      rfl
  | ifElse hb he =>
    rename_i condition body out elseBody elseOut
    rcases run_ifThen_eq m n condition w with ⟨w', heq⟩ | ⟨w', heq⟩ <;> rw [heq] at h ⊢
    · exact hr body List.mem_cons_self hb (ha body List.mem_cons_self) h hk
    · have hmem : elseBody ∈ (Stmt.ifThen condition body (some elseBody)).bodies := by
        simp [Stmt.bodies]
      exact hr elseBody hmem he (ha elseBody hmem) h hk
  | loop hb =>
    rename_i condition body out
    rw [Stmt.run] at h ⊢
    obtain ⟨o₁, hl, rfl⟩ := Option.map_eq_some_iff.mp h
    have hround : m.loop condition (runAll m .selecting n out) n w = some o₁.shown :=
      loop_refines (hr body (List.mem_singleton_self _) hb (ha body (List.mem_singleton_self _)))
        hl hk.caught
    rw [hround, Option.map_some, Outcome.shown_caught]
  | labeled hb =>
    rename_i label body out
    rw [Stmt.run] at h ⊢
    obtain ⟨o₁, hl, rfl⟩ := Option.map_eq_some_iff.mp h
    rw [hr body (List.mem_singleton_self _) hb (ha body (List.mem_singleton_self _)) hl hk.caught,
      Option.map_some, Outcome.shown_caught]
  | case hg =>
    exact case_refines (collectGroups_collected hg)
      (fun b hb => hr b.body (List.mem_map_of_mem (f := Branch.body) hb))
      (fun b hb => ha b.body (List.mem_map_of_mem (f := Branch.body) hb)) h hk

/-- Every body refines. -/
theorem refines (m : Meaning σ ν) (n : Nat) (mode : ClosureMode) (body : List Stmt) :
    Refines m n mode body := by
  induction body using body_induction with
  | nil =>
    intro out w o hn _ h _
    cases hn
    cases h
    rfl
  | cons s rest hs hrest =>
    intro out w o hn ha h hk
    obtain ⟨s', rest', hs', hr, rfl⟩ := normalize_cons hn
    obtain ⟨o₁, hrun, h⟩ := runAll_cons.mp h
    obtain ⟨hk₁, hnext⟩ := Outcome.andThen_shown h hk fun o₂ => hrest hr ha.rest
    refine runAll_cons.mpr ⟨o₁.shown, ?_, hnext⟩
    exact (Stmt.normalized_of_normalize hs').refines hs (fun b hb => ha.inside hb) hrun hk₁

/-- **Normalising keeps the meaning of a body** that does not use `exitLabel`. A run of the body,
read as falling, passes no group that closes in strict mode; and if it passes none that closes in
the mode at hand, the output, read as selecting, runs to the same end with the same state and the
same trace. -/
theorem normalize_refines {mode : ClosureMode} {body out : List Stmt}
    (hn : normalize mode body = .ok out) (ha : AvoidsLabel exitLabel body) (m : Meaning σ ν)
    (n : Nat) (w : World σ) (o : Outcome σ) (h : runAll m .falling n body w = some o) :
    (∀ g ∈ o.passed, closes .strict g = false) ∧
    ((∀ g ∈ o.passed, closes mode g = false) →
      ∃ o', runAll m .selecting n out w = some o' ∧ o'.ending = o.ending ∧ o'.world = o.world) := by
  refine ⟨fun g hg => ?_, fun hk => ⟨o.shown, refines m n mode body hn ha h hk, rfl, rfl⟩⟩
  obtain ⟨w', o', hrun, hnormal⟩ := runAll_passed body h g hg
  exact Bool.eq_false_iff.mpr fun hc => ne_normal_of_closes_strict g hc (ends_of_run g hrun) hnormal

/-- A switch whose first group may break early and falls through into its default. -/
def earlySwitch : List Stmt :=
  [.case "x" [⟨[.value "1"], false, [.ifThen "y" [.leave none] none, .other "a"]⟩,
    ⟨[.otherwise, .value "2"], false, [.other "b", .leave none]⟩], .other "c"]

theorem normalize_refines_counting : ∃ out o o', normalize .compatible earlySwitch = .ok out ∧
    runAll counting .falling 1 earlySwitch ⟨1, []⟩ = some o ∧
    o.passed = [[.ifThen "y" [.leave none] none, .other "a"]] ∧
    runAll counting .selecting 1 out ⟨1, []⟩ = some o' ∧ o'.ending = o.ending ∧
    o'.world = o.world := by
  obtain ⟨out, hn⟩ : ∃ out, normalize .compatible earlySwitch = .ok out := ⟨_, rfl⟩
  obtain ⟨o, hr, hp⟩ : ∃ o, runAll counting .falling 1 earlySwitch ⟨1, []⟩ = some o ∧
      o.passed = [[.ifThen "y" [.leave none] none, .other "a"]] := ⟨_, rfl, rfl⟩
  have ha : AvoidsLabel exitLabel earlySwitch := by
    simp [AvoidsLabel, earlySwitch, occursVia_cons, not_occursVia_nil, Stmt.bodies]
  obtain ⟨o', hr', he⟩ := (normalize_refines hn ha counting 1 ⟨1, []⟩ o hr).2 (by simp [hp]; rfl)
  exact ⟨out, o, o', hn, hr, hp, hr', he⟩

end Rubify.Flow
