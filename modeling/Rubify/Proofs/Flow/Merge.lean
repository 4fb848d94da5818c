import Rubify.Flow.Normalize
import Mathlib.Data.List.Indexes
import Mathlib.Data.List.Nodup

/-!
# What the merged branches hold

Merging goes through the groups of a switch once, with a list of slots for the branches that are
open. What comes of it can be said group by group, without the slots: a branch holds what runs from
its group on (`window`), and `merge` lists these branches, the default last.

The slots stand for a flag at each branch (`regularView`, `otherwiseView`), as long as none of them is
listed twice and each names a branch that is there (`Kept`). On flags one group does two things: it
opens branches (`regularView_openLabels`), and it adds to all that are open (`regularView_extend`). So
a branch that is open in front of some groups gets their window, and one that is not stays as it is
(`completed`).

Headline:
* **`finish_foldGroups`**: merging the groups gives, or is refused, as `merge` says.
-/

namespace Rubify.Flow

/-! ## The branches by their groups -/

/-- A group whose statements have been collected. -/
structure Group where
  labels : List CaseLabel
  body : List Stmt
  closed : Bool

/-- What runs from the first group on: bodies up to and including the first that closes. -/
def window : List Group → List Stmt
  | [] => []
  | g :: rest => g.body ++ if g.closed then [] else window rest

/-- A closed branch that takes the given labels and runs from the first group on. -/
def closedBranch (labels : List CaseLabel) (groups : List Group) : Branch Stmt :=
  ⟨labels, true, labelExits (window groups)⟩

/-- One branch for each group that has values. -/
def valueBranches : List Group → List (Branch Stmt)
  | [] => []
  | g :: rest =>
    match values g.labels with
    | [] => valueBranches rest
    | texts => closedBranch (texts.map .value) (g :: rest) :: valueBranches rest

/-- The branch of the first group with a default label. -/
def defaultBranch : List Group → List (Branch Stmt)
  | [] => []
  | g :: rest =>
    if g.labels.contains .otherwise then [closedBranch [.otherwise] (g :: rest)]
    else defaultBranch rest

/-- The branches of a switch, the default last. -/
def merge (groups : List Group) : List (Branch Stmt) :=
  valueBranches groups ++ defaultBranch groups

/-- Collects the groups of a switch in order; `seen` says whether a default label has been met. -/
def collectGroups (mode : ClosureMode) (seen : Bool) :
    List (Branch Stmt) → Except FlowError (List Group)
  | [] => return []
  | ⟨labels, closed, body⟩ :: rest => do
    if closed then throw .closedBranch
    let default := labels.contains .otherwise
    if default && seen then throw .secondDefault
    let (stmts, ends) ← collect mode (closes mode body) body
    return ⟨labels, stmts, ends⟩ :: (← collectGroups mode (seen || default) rest)

namespace SwitchFold

/-! ## Slots and flags -/

/-- No slot is open twice, and every open one holds a branch. -/
structure Kept (fold : SwitchFold) : Prop where
  nodup : fold.openSlots.Nodup
  regular : ∀ i, .regular i ∈ fold.openSlots → i < fold.regular.length
  otherwise : .otherwise ∈ fold.openSlots → fold.otherwise.isSome = true

/-- The branches with values, each with whether it is open. -/
def regularView (fold : SwitchFold) : List (Branch Stmt × Bool) :=
  fold.regular.mapIdx fun i b => (b, decide (.regular i ∈ fold.openSlots))

/-- The default branch with whether it is open. -/
def otherwiseView (fold : SwitchFold) : Option (Branch Stmt × Bool) :=
  fold.otherwise.map fun b => (b, decide (.otherwise ∈ fold.openSlots))

/-- What a group adds to a branch, which stays open unless the group closes. -/
def grown (stmts : List Stmt) (ends : Bool) (part : Branch Stmt × Bool) : Branch Stmt × Bool :=
  (if part.2 then part.1.extend stmts else part.1, part.2 && !ends)

section

variable {fold : SwitchFold} {stmts : List Stmt}

theorem kept_empty : Kept {} :=
  ⟨List.nodup_nil, fun _ h => absurd h List.not_mem_nil, fun h => absurd h List.not_mem_nil⟩

/-- Adding to the branches of some slots, each once. -/
theorem foldl_extendSlot (stmts : List Stmt) (slots : List Slot) (hnodup : slots.Nodup)
    (fold : SwitchFold) :
    slots.foldl (extendSlot stmts) fold =
      { fold with
        regular := fold.regular.mapIdx fun i b => if .regular i ∈ slots then b.extend stmts else b
        otherwise := fold.otherwise.map fun b => if .otherwise ∈ slots then b.extend stmts else b } := by
  induction slots generalizing fold with
  | nil =>
    have hsame : fold.regular.mapIdx (fun _ b => b) = fold.regular :=
      List.ext_getElem? fun i => by simp
    simp [hsame]
  | cons slot slots ih =>
    obtain ⟨hslot, hslots⟩ := List.nodup_cons.mp hnodup
    rw [List.foldl_cons, ih hslots]
    cases slot with
    | regular index =>
      simp only [extendSlot, List.mem_cons, reduceCtorEq, false_or, Slot.regular.injEq]
      congr 1
      refine List.ext_getElem? fun i => ?_
      rw [List.getElem?_mapIdx, List.getElem?_mapIdx, List.getElem?_modify]
      by_cases hi : index = i
      · subst hi
        simp [hslot, Function.comp_def]
      · simp [hi, Ne.symm hi]
    | otherwise =>
      simp only [extendSlot, List.mem_cons, reduceCtorEq, false_or, true_or, if_true, Option.map_map]
      congr 1
      cases fold.otherwise with
      | none => rfl
      | some b => simp [hslot]

theorem extend_eq (h : fold.Kept) (stmts : List Stmt) (ends : Bool) : fold.extend stmts ends =
    { regular := fold.regular.mapIdx fun i b =>
        if .regular i ∈ fold.openSlots then b.extend stmts else b
      otherwise := fold.otherwise.map fun b =>
        if .otherwise ∈ fold.openSlots then b.extend stmts else b
      openSlots := if ends then [] else fold.openSlots } := by
  rw [extend, foldl_extendSlot stmts fold.openSlots h.nodup]
  cases ends <;> rfl

/-- **A group adds to the branches that are open**, and leaves them open unless it closes. -/
theorem regularView_extend (h : fold.Kept) (stmts : List Stmt) (ends : Bool) :
    (fold.extend stmts ends).regularView = fold.regularView.map (grown stmts ends) := by
  refine List.ext_getElem? fun i => ?_
  rw [extend_eq h, regularView, regularView, List.mapIdx_mapIdx, List.getElem?_map,
    List.getElem?_mapIdx, List.getElem?_mapIdx, Option.map_map]
  refine congrArg (Option.map · _) (funext fun b => ?_)
  cases ends <;> simp [grown]

theorem otherwiseView_extend (h : fold.Kept) (stmts : List Stmt) (ends : Bool) :
    (fold.extend stmts ends).otherwiseView = fold.otherwiseView.map (grown stmts ends) := by
  rw [extend_eq h, otherwiseView, otherwiseView, Option.map_map, Option.map_map]
  refine congrArg (Option.map · _) (funext fun b => ?_)
  cases ends <;> simp [grown]

theorem Kept.extend (h : fold.Kept) (stmts : List Stmt) (ends : Bool) :
    (fold.extend stmts ends).Kept := by
  rw [extend_eq h]
  cases ends with
  | true => exact ⟨List.nodup_nil, fun _ h => absurd h List.not_mem_nil,
      fun h => absurd h List.not_mem_nil⟩
  | false =>
    refine ⟨h.nodup, fun i hi => ?_, fun ho => ?_⟩
    · simpa using h.regular i hi
    · simpa using h.otherwise ho

/-! ## Opening branches -/

theorem Kept.openDefault (h : fold.Kept) (hnone : fold.otherwise = none) : fold.openDefault.Kept := by
  have hnot : .otherwise ∉ fold.openSlots := fun hmem => by
    have hsome := h.otherwise hmem
    rw [hnone] at hsome
    cases hsome
  refine ⟨?_, fun i hi => ?_, fun _ => rfl⟩
  · have hconcat := List.Nodup.concat hnot h.nodup
    rwa [List.concat_eq_append] at hconcat
  · exact h.regular i (by simpa [SwitchFold.openDefault] using hi)

theorem Kept.openValues (h : fold.Kept) (texts : List String) : (fold.openValues texts).Kept := by
  have hnot : .regular fold.regular.length ∉ fold.openSlots := fun hmem =>
    absurd (h.regular _ hmem) (Nat.lt_irrefl _)
  refine ⟨?_, fun i hi => ?_, fun ho => h.otherwise (by simpa [SwitchFold.openValues] using ho)⟩
  · have hconcat := List.Nodup.concat hnot h.nodup
    rwa [List.concat_eq_append] at hconcat
  · rw [SwitchFold.openValues, List.length_append, List.length_singleton]
    rcases List.mem_append.mp hi with hi | hi
    · exact Nat.lt_succ_of_lt (h.regular i hi)
    · rw [Slot.regular.inj (List.mem_singleton.mp hi)]
      exact Nat.lt_succ_self _

theorem regularView_openDefault (fold : SwitchFold) :
    fold.openDefault.regularView = fold.regularView := by
  simp [regularView, openDefault]

theorem otherwiseView_openDefault (fold : SwitchFold) :
    fold.openDefault.otherwiseView = some (⟨[.otherwise], true, []⟩, true) := by
  simp [otherwiseView, openDefault]

/-- The branches that were there keep their flags: the new slot is behind them all. -/
theorem regularView_openValues (fold : SwitchFold) (texts : List String) :
    (fold.openValues texts).regularView =
      fold.regularView ++ [(⟨texts.map .value, true, []⟩, true)] := by
  rw [regularView, openValues, List.mapIdx_append, List.mapIdx_singleton]
  congr 1
  · refine List.ext_getElem? fun i => ?_
    rw [regularView, List.getElem?_mapIdx, List.getElem?_mapIdx]
    cases hb : fold.regular[i]? with
    | none => rfl
    | some b =>
      have hlt := (List.getElem?_eq_some_iff.mp hb).1
      simp [Nat.ne_of_lt hlt]
  · simp

theorem otherwiseView_openValues (fold : SwitchFold) (texts : List String) :
    (fold.openValues texts).otherwiseView = fold.otherwiseView := by
  simp [otherwiseView, openValues]

/-- A second default label is refused before its branch would be opened. -/
theorem Kept.openLabels (h : fold.Kept) {labels : List CaseLabel}
    (hdefault : labels.contains .otherwise = true → fold.otherwise = none) :
    (fold.openLabels labels).Kept := by
  have hkept : (if labels.contains .otherwise then fold.openDefault else fold).Kept := by
    by_cases hcontains : labels.contains .otherwise = true
    · rw [if_pos hcontains]
      exact h.openDefault (hdefault hcontains)
    · rw [if_neg hcontains]
      exact h
  rw [SwitchFold.openLabels]
  by_cases hempty : (values labels).isEmpty = true
  · rw [if_pos hempty]
    exact hkept
  · rw [if_neg hempty]
    exact hkept.openValues (values labels)

theorem regularView_openLabels (fold : SwitchFold) (labels : List CaseLabel) :
    (fold.openLabels labels).regularView = fold.regularView ++
      if (values labels).isEmpty then [] else
        [(⟨(values labels).map .value, true, []⟩, true)] := by
  have hview : (if labels.contains .otherwise then fold.openDefault else fold).regularView =
      fold.regularView := by
    split
    · exact regularView_openDefault fold
    · rfl
  rw [openLabels, ← hview]
  by_cases hempty : (values labels).isEmpty = true
  · rw [if_pos hempty, if_pos hempty, List.append_nil]
  · rw [if_neg hempty, if_neg hempty, regularView_openValues]

theorem otherwiseView_openLabels (fold : SwitchFold) (labels : List CaseLabel) :
    (fold.openLabels labels).otherwiseView =
      if labels.contains .otherwise then some (⟨[.otherwise], true, []⟩, true)
      else fold.otherwiseView := by
  have hview : ∀ fold' : SwitchFold, (if (values labels).isEmpty then fold' else
      fold'.openValues (values labels)).otherwiseView = fold'.otherwiseView := by
    intro fold'
    split
    · rfl
    · exact otherwiseView_openValues fold' (values labels)
  rw [openLabels, hview]
  split
  · exact otherwiseView_openDefault fold
  · rfl

end

/-! ## Whole switches -/

/-- A branch behind some groups: one that is open gets what runs from them. -/
def completed (groups : List Group) (part : Branch Stmt × Bool) : Branch Stmt :=
  if part.2 then part.1.extend (window groups) else part.1

/-- The branches that groups open for their values, before breaks are pointed anywhere. -/
def openedValues : List Group → List (Branch Stmt)
  | [] => []
  | g :: rest =>
    (if (values g.labels).isEmpty then [] else
      [⟨(values g.labels).map .value, true, window (g :: rest)⟩]) ++ openedValues rest

/-- The branch that the first group with a default label opens. -/
def openedDefault : List Group → Option (Branch Stmt)
  | [] => none
  | g :: rest =>
    if g.labels.contains .otherwise then some ⟨[.otherwise], true, window (g :: rest)⟩
    else openedDefault rest

theorem completed_nil (part : Branch Stmt × Bool) : completed [] part = part.1 := by
  simp [completed, window, Branch.extend]

/-- Going through one group and then through the rest is going through all. -/
theorem completed_grown (g : Group) (rest : List Group) :
    completed rest ∘ grown g.body g.closed = completed (g :: rest) := by
  refine funext fun part => ?_
  obtain ⟨b, isOpen⟩ := part
  cases isOpen with
  | false => simp [completed, grown]
  | true => cases hclosed : g.closed <;> simp [completed, grown, window, Branch.extend, hclosed]

section

variable {fold : SwitchFold} {g : Group}

/-- The branches with values of a fold, once some groups have been merged into it. -/
def regularAfter (fold : SwitchFold) (groups : List Group) : List (Branch Stmt) :=
  fold.regularView.map (completed groups) ++ openedValues groups

/-- The default branch of a fold, once some groups have been merged into it. -/
def otherwiseAfter (fold : SwitchFold) (groups : List Group) : Option (Branch Stmt) :=
  (fold.otherwiseView.map (completed groups)).or (openedDefault groups)

/-- What a fold holds, the default last. -/
def parts (fold : SwitchFold) : List (Branch Stmt) × Option (Branch Stmt) :=
  (fold.regular, fold.otherwise)

theorem parts_eq_after_nil (fold : SwitchFold) :
    fold.parts = (fold.regularAfter [], fold.otherwiseAfter []) := by
  have hregular : fold.regularView.map (completed []) = fold.regular :=
    List.ext_getElem? fun i => by simp [regularView, Function.comp_def, completed_nil]
  have hotherwise : fold.otherwiseView.map (completed []) = fold.otherwise := by
    simp [otherwiseView, Function.comp_def, completed_nil]
  rw [regularAfter, otherwiseAfter, hregular, hotherwise, openedValues, openedDefault,
    List.append_nil, Option.or_none, parts]

theorem regularAfter_cons (h : (fold.openLabels g.labels).Kept) (rest : List Group) :
    ((fold.openLabels g.labels).extend g.body g.closed).regularAfter rest =
      fold.regularAfter (g :: rest) := by
  rw [regularAfter, regularView_extend h, List.map_map, completed_grown, regularView_openLabels,
    List.map_append, List.append_assoc, regularAfter, openedValues]
  congr 2
  split
  · rfl
  · simp [completed, Branch.extend]

theorem otherwiseAfter_cons (h : (fold.openLabels g.labels).Kept)
    (hdefault : g.labels.contains .otherwise = true → fold.otherwise = none) (rest : List Group) :
    ((fold.openLabels g.labels).extend g.body g.closed).otherwiseAfter rest =
      fold.otherwiseAfter (g :: rest) := by
  rw [otherwiseAfter, otherwiseView_extend h, Option.map_map, completed_grown,
    otherwiseView_openLabels, otherwiseAfter, openedDefault]
  by_cases hcontains : g.labels.contains .otherwise = true
  · rw [if_pos hcontains, if_pos hcontains]
    simp [otherwiseView, hdefault hcontains, completed, Branch.extend]
  · rw [if_neg hcontains, if_neg hcontains]

theorem isSome_otherwise_extend (h : (fold.openLabels g.labels).Kept) :
    ((fold.openLabels g.labels).extend g.body g.closed).otherwise.isSome =
      (fold.otherwise.isSome || g.labels.contains .otherwise) := by
  rw [extend_eq h, Option.isSome_map, openLabels]
  by_cases hcontains : g.labels.contains .otherwise = true <;>
    by_cases hempty : (values g.labels).isEmpty = true <;>
      simp only [hcontains, hempty, openDefault, openValues, if_true, if_false, Bool.false_eq_true,
        Option.isSome_some, Bool.or_true, Bool.or_false]

end

/-- **Merging groups into a fold.** By induction on the groups: one group leaves the fold kept, and
what the rest makes of it is what all of them make of the fold before. -/
theorem parts_foldGroups (mode : ClosureMode) (branches : List (Branch Stmt)) {fold : SwitchFold}
    (h : fold.Kept) :
    (foldGroups mode fold branches).map parts =
      (collectGroups mode fold.otherwise.isSome branches).map fun groups =>
        (fold.regularAfter groups, fold.otherwiseAfter groups) := by
  induction branches generalizing fold with
  | nil =>
    rw [foldGroups, collectGroups]
    exact congrArg Except.ok (parts_eq_after_nil fold)
  | cons branch rest ih =>
    obtain ⟨labels, closed, body⟩ := branch
    rw [foldGroups, collectGroups]
    cases closed with
    | true => rfl
    | false =>
      by_cases hsecond : (labels.contains .otherwise && fold.otherwise.isSome) = true
      · simp only [hsecond, Bool.false_eq_true, if_false, if_true]
        rfl
      · have hdefault : labels.contains .otherwise = true → fold.otherwise = none := by
          intro hcontains
          rw [hcontains, Bool.true_and, Bool.not_eq_true] at hsecond
          exact Option.isSome_eq_false_iff.mp hsecond |> Option.isNone_iff_eq_none.mp
        simp only [hsecond, Bool.false_eq_true, if_false]
        cases hcollect : collect mode (closes mode body) body with
        | error e => rfl
        | ok collected =>
          obtain ⟨stmts, ends⟩ := collected
          have hkept := h.openLabels hdefault
          have hrest := ih (hkept.extend stmts ends)
          rw [isSome_otherwise_extend (g := ⟨labels, stmts, ends⟩) hkept] at hrest
          refine hrest.trans ?_
          cases hgroups : collectGroups mode (fold.otherwise.isSome || labels.contains .otherwise)
              rest with
          | error e => simp [bind, Except.bind, Except.map]
          | ok groups =>
            have hregular := regularAfter_cons (g := ⟨labels, stmts, ends⟩) hkept groups
            have hotherwise :=
              otherwiseAfter_cons (g := ⟨labels, stmts, ends⟩) hkept hdefault groups
            simp [bind, Except.bind, pure, Except.pure, Except.map, hregular, hotherwise]

end SwitchFold

open SwitchFold

theorem valueBranches_eq (groups : List Group) :
    valueBranches groups = (openedValues groups).map Branch.labelExits := by
  induction groups with
  | nil => rfl
  | cons g rest ih =>
    rw [valueBranches, openedValues, List.map_append, ih]
    cases values g.labels with
    | nil => rfl
    | cons text texts => rfl

theorem defaultBranch_eq (groups : List Group) :
    defaultBranch groups = (openedDefault groups).toList.map Branch.labelExits := by
  induction groups with
  | nil => rfl
  | cons g rest ih =>
    rw [defaultBranch, openedDefault, ih]
    split <;> rfl

theorem merge_eq (groups : List Group) : merge groups =
    (openedValues groups ++ (openedDefault groups).toList).map Branch.labelExits := by
  rw [merge, valueBranches_eq, defaultBranch_eq, List.map_append]

/-- **The branches of a switch by its groups.** -/
theorem finish_foldGroups (mode : ClosureMode) (branches : List (Branch Stmt)) :
    (foldGroups mode {} branches).map finish =
      (collectGroups mode false branches).map merge := by
  have hparts := parts_foldGroups mode branches kept_empty
  change _ = (collectGroups mode false branches).map _ at hparts
  revert hparts
  cases foldGroups mode {} branches with
  | error e =>
    cases collectGroups mode false branches with
    | error e' => exact fun hparts => congrArg Except.error (Except.error.inj hparts)
    | ok groups => exact fun hparts => by cases hparts
  | ok fold =>
    cases collectGroups mode false branches with
    | error e => exact fun hparts => by cases hparts
    | ok groups =>
      intro hparts
      obtain ⟨hregular, hotherwise⟩ := Prod.ext_iff.mp (Except.ok.inj hparts)
      refine congrArg Except.ok ?_
      rw [finish, merge_eq]
      exact congrArg₂ (fun regular otherwise => (regular ++ Option.toList otherwise).map _)
        hregular hotherwise

/-! ## Switches in bodies -/

section

variable (mode : ClosureMode) (value : String) (branches : List (Branch Stmt))

theorem bind_foldGroups {α : Type} (f : List (Branch Stmt) → α) :
    (do return f (← foldGroups mode {} branches).finish) =
      (do return f (merge (← collectGroups mode false branches))) := by
  have h := congrArg (Except.map f) (finish_foldGroups mode branches)
  revert h
  cases foldGroups mode {} branches <;> cases collectGroups mode false branches <;> exact id

theorem normalizeSwitch_eq : normalizeSwitch mode value branches =
    (do return .case value (merge (← collectGroups mode false branches))) := by
  rw [normalizeSwitch]
  exact bind_foldGroups mode branches (Stmt.case value)

theorem Stmt.normalize_case : (Stmt.case value branches).normalize mode =
    (do return .case value (merge (← collectGroups mode false branches))) := by
  rw [Stmt.normalize]
  exact bind_foldGroups mode branches (Stmt.case value)

theorem Stmt.collect_case (drop : Bool) : (Stmt.case value branches).collect mode drop =
    (do return ([.case value (merge (← collectGroups mode false branches))], false)) := by
  rw [Stmt.collect]
  exact bind_foldGroups mode branches fun merged => ([Stmt.case value merged], false)

end

end Rubify.Flow
