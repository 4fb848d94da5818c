import Rubify.Proofs.Flow.Collect

/-!
# Comments do not matter

`erase` deletes the comments of a body, at any depth. Everything that looks for the last statement
of a body looks past comments, so nothing that is decided about a body depends on them: erasing
commutes with every step of `normalize`, and a statement that stands in front of others
(`trim_append`, `closes_append`) is never the one that counts, unless the others are comments.

Headline: **`normalize_ignores_comments`**.
-/

namespace Rubify.Flow

/-! ## Erasing -/

mutual

/-- What is left of a statement without comments: nothing, or one statement. -/
def Stmt.erase : Stmt → List Stmt
  | .comment _ => []
  | .block body => [.block (erase body)]
  | .ifThen condition thenBranch elseBranch =>
    [.ifThen condition (erase thenBranch) (elseErase elseBranch)]
  | .loop condition body => [.loop condition (erase body)]
  | .labeled label body => [.labeled label (erase body)]
  | .case value branches => [.case value (eraseBranches branches)]
  | .other text => [.other text]
  | .leave label => [.leave label]
  | .return value => [.return value]
  | .raise value => [.raise value]

/-- A body without comments, at any depth. -/
def erase : List Stmt → List Stmt
  | [] => []
  | s :: rest => s.erase ++ erase rest

/-- An `else` branch without comments. -/
def elseErase : Option (List Stmt) → Option (List Stmt)
  | none => none
  | some body => some (erase body)

/-- The groups of a switch without comments. -/
def eraseBranches : List (Branch Stmt) → List (Branch Stmt)
  | [] => []
  | ⟨labels, closed, body⟩ :: rest => ⟨labels, closed, erase body⟩ :: eraseBranches rest

end

/-- A collected group without comments. -/
def Group.erase (g : Group) : Group := { g with body := Flow.erase g.body }

theorem erase_singleton (s : Stmt) : erase [s] = s.erase := by
  rw [erase, erase, List.append_nil]

theorem erase_append (xs ys : List Stmt) : erase (xs ++ ys) = erase xs ++ erase ys := by
  induction xs with
  | nil => rfl
  | cons s xs ih => rw [List.cons_append, erase, erase, ih, List.append_assoc]

theorem eraseBranches_eq_map (branches : List (Branch Stmt)) :
    eraseBranches branches = branches.map fun b => { b with body := erase b.body } := by
  induction branches with
  | nil => rfl
  | cons b rest ih => rw [eraseBranches, ih, List.map_cons]

/-- A statement leaves nothing iff it is a comment, and else one statement that is none. -/
theorem Stmt.erase_cases (s : Stmt) :
    (s.isComment = true ∧ s.erase = []) ∨
      (s.isComment = false ∧ ∃ s', s.erase = [s'] ∧ s'.isComment = false) := by
  cases s with
  | comment text => exact Or.inl ⟨rfl, rfl⟩
  | _ => exact Or.inr ⟨rfl, _, rfl, rfl⟩

theorem all_isComment_erase (body : List Stmt) :
    (erase body).all Stmt.isComment = body.all Stmt.isComment := by
  induction body with
  | nil => rfl
  | cons s rest ih =>
    rw [erase, List.all_append, ih, List.all_cons]
    rcases s.erase_cases with ⟨hs, he⟩ | ⟨hs, s', he, hs'⟩
    · rw [hs, he, List.all_nil]
    · rw [hs, he, List.all_cons, hs', Bool.false_and]

theorem erase_eq_nil {body : List Stmt} (h : body.all Stmt.isComment = true) : erase body = [] := by
  induction body with
  | nil => rfl
  | cons s rest ih =>
    rw [List.all_cons, Bool.and_eq_true] at h
    rw [erase, ih h.2, List.append_nil]
    rcases s.erase_cases with ⟨-, he⟩ | ⟨hs, -⟩
    · exact he
    · exact absurd (h.1.symm.trans hs) Bool.noConfusion

/-- The bodies of what is left of a statement are its bodies, erased. -/
theorem Stmt.bodies_erase {s s' : Stmt} (h : s.erase = [s']) :
    s'.bodies = s.bodies.map Flow.erase := by
  cases s with
  | comment text => cases h
  | ifThen condition thenBranch elseBranch => cases elseBranch <;> cases h <;> rfl
  | case value branches =>
    cases h
    simp only [Stmt.bodies, eraseBranches_eq_map, List.map_map]
    rfl
  | _ => cases h; rfl

/-- No comment is left, at any depth. -/
theorem not_comment_erase (text : String) (body : List Stmt) :
    ¬ OccursVia Anywhere (.comment text) (erase body) := by
  induction body using body_induction with
  | nil => exact not_occursVia_nil
  | cons s rest ihs ih =>
    rw [erase, occursVia_append]
    rintro (h | h)
    · rcases s.erase_cases with ⟨-, he⟩ | ⟨-, s', he, hs'⟩
      · rw [he] at h
        exact not_occursVia_nil h
      · rw [he, occursVia_cons] at h
        rcases h with rfl | ⟨b, hb, -, h⟩ | h
        · cases hs'
        · rw [Stmt.bodies_erase he] at hb
          obtain ⟨c, hc, rfl⟩ := List.mem_map.mp hb
          exact ihs c hc h
        · exact not_occursVia_nil h
    · exact ih h

/-! ## What stands in front of the last statement -/

theorem closes_append (mode : ClosureMode) (xs : List Stmt) {ys : List Stmt}
    (h : ys.all Stmt.isComment = false) : closes mode (xs ++ ys) = closes mode ys := by
  induction xs with
  | nil => rfl
  | cons s xs ih =>
    rw [List.cons_append, closes, List.all_append, h, Bool.and_false, if_neg Bool.false_ne_true, ih]

theorem trim_append (xs : List Stmt) {ys : List Stmt} (h : ys.all Stmt.isComment = false) :
    trim (xs ++ ys) = xs ++ trim ys := by
  induction xs with
  | nil => rfl
  | cons s xs ih =>
    rw [List.cons_append, trim, List.all_append, h, Bool.and_false, if_neg Bool.false_ne_true, ih,
      List.cons_append]

theorem exits_append (xs ys : List Stmt) : exits (xs ++ ys) = (exits xs || exits ys) := by
  induction xs with
  | nil => rfl
  | cons s xs ih => rw [List.cons_append, exits, exits, ih, Bool.or_assoc]

theorem retarget_append (xs ys : List Stmt) : retarget (xs ++ ys) = retarget xs ++ retarget ys := by
  induction xs with
  | nil => rfl
  | cons s xs ih => rw [List.cons_append, retarget, retarget, ih, List.cons_append]

theorem normalize_append (mode : ClosureMode) (xs ys : List Stmt) :
    normalize mode (xs ++ ys) = do
      let out ← normalize mode xs
      return out ++ (← normalize mode ys) := by
  induction xs with
  | nil => cases h : normalize mode ys <;> simp [normalize, h, bind, Except.bind, pure, Except.pure]
  | cons s xs ih =>
    rw [List.cons_append, normalize, normalize, ih]
    cases s.normalize mode with
    | error e => rfl
    | ok s' =>
      cases normalize mode xs with
      | error e => rfl
      | ok out => cases normalize mode ys <;> rfl

/-! ## Erasing commutes with every step -/

/-- **Whether a body closes does not depend on comments.** -/
theorem closes_erase (mode : ClosureMode) (body : List Stmt) :
    closes mode (erase body) = closes mode body := by
  induction body using body_induction with
  | nil => rfl
  | cons s rest ihs ih =>
    rw [erase, closes]
    by_cases hc : rest.all Stmt.isComment = true
    · rw [if_pos hc, erase_eq_nil hc, List.append_nil]
      cases s with
      | block body => exact ihs body List.mem_cons_self
      | ifThen condition thenBranch elseBranch =>
        have hthen := ihs thenBranch List.mem_cons_self
        cases elseBranch with
        | none => simp [Stmt.erase, closes, Stmt.closes, elseErase, elseCloses?, hthen]
        | some elseBody =>
          have helse := ihs elseBody (List.mem_cons_of_mem _ List.mem_cons_self)
          simp [Stmt.erase, closes, Stmt.closes, elseErase, elseCloses?, hthen, helse]
      | _ => rfl
    · have hrest := (all_isComment_erase rest).trans (Bool.eq_false_iff.mpr hc)
      rw [if_neg hc, closes_append mode _ hrest, ih]

theorem trim_erase (body : List Stmt) : trim (erase body) = erase (trim body) := by
  induction body using body_induction with
  | nil => rfl
  | cons s rest ihs ih =>
    rw [erase, trim]
    by_cases hc : rest.all Stmt.isComment = true
    · rw [if_pos hc, erase_append, erase_eq_nil hc, List.append_nil, List.append_nil]
      cases s with
      | block body =>
        have hbody := ihs body List.mem_cons_self
        simp [Stmt.erase, Stmt.trim, trim, erase, hbody]
      | ifThen condition thenBranch elseBranch =>
        have hthen := ihs thenBranch List.mem_cons_self
        cases elseBranch with
        | none => simp [Stmt.erase, Stmt.trim, trim, erase, elseTrim, elseErase, hthen]
        | some elseBody =>
          have helse := ihs elseBody (List.mem_cons_of_mem _ List.mem_cons_self)
          simp [Stmt.erase, Stmt.trim, trim, erase, elseTrim, elseErase, hthen, helse]
      | leave label => cases label <;> rfl
      | _ => rfl
    · have hrest := (all_isComment_erase rest).trans (Bool.eq_false_iff.mpr hc)
      rw [if_neg hc, trim_append _ hrest, ih, erase]

theorem exits_erase (body : List Stmt) : exits (erase body) = exits body := by
  induction body using body_induction with
  | nil => rfl
  | cons s rest ihs ih =>
    rw [erase, exits_append, exits, ih]
    refine congrArg (· || _) ?_
    cases s with
    | ifThen condition thenBranch elseBranch =>
      have hthen := ihs thenBranch List.mem_cons_self
      cases elseBranch with
      | none => simp [Stmt.erase, exits, Stmt.exits, elseErase, elseExits, hthen]
      | some elseBody =>
        have helse := ihs elseBody (List.mem_cons_of_mem _ List.mem_cons_self)
        simp [Stmt.erase, exits, Stmt.exits, elseErase, elseExits, hthen, helse]
    | block body | labeled label body =>
      have hbody := ihs body List.mem_cons_self
      simp [Stmt.erase, exits, Stmt.exits, hbody]
    | leave label => cases label <;> rfl
    | _ => rfl

theorem retarget_erase (body : List Stmt) : retarget (erase body) = erase (retarget body) := by
  induction body using body_induction with
  | nil => rfl
  | cons s rest ihs ih =>
    rw [erase, retarget_append, retarget, erase, ih]
    refine congrArg (· ++ _) ?_
    cases s with
    | ifThen condition thenBranch elseBranch =>
      have hthen := ihs thenBranch List.mem_cons_self
      cases elseBranch with
      | none => simp [Stmt.erase, retarget, Stmt.retarget, elseErase, elseRetarget, hthen]
      | some elseBody =>
        have helse := ihs elseBody (List.mem_cons_of_mem _ List.mem_cons_self)
        simp [Stmt.erase, retarget, Stmt.retarget, elseErase, elseRetarget, hthen, helse]
    | block body | labeled label body =>
      have hbody := ihs body List.mem_cons_self
      simp [Stmt.erase, retarget, Stmt.retarget, hbody]
    | leave label => cases label <;> rfl
    | _ => rfl

theorem labelExits_erase (body : List Stmt) :
    labelExits (erase body) = erase (labelExits body) := by
  rw [labelExits, labelExits, exits_erase, retarget_erase]
  split
  · rw [erase_singleton, Stmt.erase]
  · rfl

/-! ## Switches -/

theorem window_erase (groups : List Group) :
    window (groups.map Group.erase) = erase (window groups) := by
  induction groups with
  | nil => rfl
  | cons g rest ih =>
    rw [List.map_cons, window, window, erase_append, ih]
    refine congrArg (_ ++ ·) ?_
    show (if g.closed = true then [] else _) = _
    split <;> rfl

theorem eraseBranches_closedBranch (labels : List CaseLabel) (groups : List Group)
    (rest : List (Branch Stmt)) : eraseBranches (closedBranch labels groups :: rest) =
      closedBranch labels (groups.map Group.erase) :: eraseBranches rest := by
  rw [closedBranch, closedBranch, eraseBranches, window_erase, labelExits_erase]

theorem valueBranches_erase (groups : List Group) :
    valueBranches (groups.map Group.erase) = eraseBranches (valueBranches groups) := by
  induction groups with
  | nil => rfl
  | cons g rest ih =>
    have hlabels : g.erase.labels = g.labels := rfl
    rw [List.map_cons, valueBranches, valueBranches, hlabels]
    cases values g.labels with
    | nil => exact ih
    | cons text texts =>
      rw [eraseBranches_closedBranch, ← ih]
      rfl

theorem defaultBranch_erase (groups : List Group) :
    defaultBranch (groups.map Group.erase) = eraseBranches (defaultBranch groups) := by
  induction groups with
  | nil => rfl
  | cons g rest ih =>
    have hlabels : g.erase.labels = g.labels := rfl
    rw [List.map_cons, defaultBranch, defaultBranch, hlabels]
    split
    · rw [eraseBranches_closedBranch, List.map_cons]
      rfl
    · exact ih

theorem merge_erase (groups : List Group) :
    merge (groups.map Group.erase) = eraseBranches (merge groups) := by
  rw [merge, merge, valueBranches_erase, defaultBranch_erase]
  simp only [eraseBranches_eq_map, List.map_append]

/-- Groups are collected without their comments as with them, if their bodies are normalised so. -/
theorem collectGroups_erase {mode : ClosureMode} {branches : List (Branch Stmt)}
    (ih : ∀ b ∈ branches, normalize mode (erase b.body) = (normalize mode b.body).map erase) :
    ∀ seen, collectGroups mode seen (eraseBranches branches) =
      (collectGroups mode seen branches).map (·.map Group.erase) := by
  induction branches with
  | nil => exact fun _ => rfl
  | cons b rest ihrest =>
    intro seen
    obtain ⟨hb, hrest⟩ := List.forall_mem_cons.mp ih
    rw [eraseBranches, collectGroups_cons, collectGroups_cons, closes_erase, hb]
    show (if b.closed = true then _ else if (b.isDefault && seen) = true then _ else _) = _
    split
    · rfl
    split
    · rfl
    cases normalize mode b.body with
    | error e => rfl
    | ok out =>
      have htrim : trimIf (closes mode b.body) (erase out) =
          erase (trimIf (closes mode b.body) out) := by
        cases closes mode b.body with
        | true => exact trim_erase out
        | false => rfl
      have hgroups : collectGroups mode (seen || b.isDefault) (eraseBranches rest) =
          (collectGroups mode (seen || b.isDefault) rest).map (·.map Group.erase) :=
        ihrest hrest _
      show (collectGroups mode (seen || b.isDefault) (eraseBranches rest) >>= fun groups => pure
        (⟨b.labels, trimIf (closes mode b.body) (erase out), closes mode b.body⟩ :: groups)) = _
      rw [hgroups, htrim]
      cases collectGroups mode (seen || b.isDefault) rest <;> rfl

/-! ## Normalising -/

/-- One statement is normalised without comments as with them, if the bodies inside it are. -/
theorem Stmt.normalize_erase {mode : ClosureMode} {s : Stmt}
    (ih : ∀ b ∈ s.bodies,
      Flow.normalize mode (Flow.erase b) = (Flow.normalize mode b).map Flow.erase) :
    Flow.normalize mode s.erase = (s.normalize mode).map Stmt.erase := by
  cases s with
  | comment text => rfl
  | other text => rfl
  | leave label => rfl
  | «return» value => rfl
  | raise value => rfl
  | block body | loop condition body | labeled label body =>
    have hbody := ih body List.mem_cons_self
    rw [Stmt.erase, Flow.normalize, Stmt.normalize, Stmt.normalize, hbody]
    cases Flow.normalize mode body <;> rfl
  | ifThen condition thenBranch elseBranch =>
    have hthen := ih thenBranch List.mem_cons_self
    rw [Stmt.erase, Flow.normalize, Stmt.normalize, Stmt.normalize, hthen]
    cases elseBranch with
    | none => cases Flow.normalize mode thenBranch <;> rfl
    | some elseBody =>
      have helse := ih elseBody (List.mem_cons_of_mem _ List.mem_cons_self)
      rw [elseErase, elseNormalize, elseNormalize, helse]
      cases Flow.normalize mode thenBranch <;> cases Flow.normalize mode elseBody <;> rfl
  | case value branches =>
    have hbodies : ∀ b ∈ branches, Flow.normalize mode (Flow.erase b.body) =
        (Flow.normalize mode b.body).map Flow.erase :=
      fun b hb => ih b.body (List.mem_map.mpr ⟨b, hb, rfl⟩)
    have hgroups := collectGroups_erase hbodies false
    rw [Stmt.erase, Flow.normalize, Stmt.normalize_case, Stmt.normalize_case, hgroups]
    cases collectGroups mode false branches with
    | error e => rfl
    | ok groups =>
      show Except.ok [Stmt.case value (merge (groups.map Group.erase))] = _
      rw [merge_erase]
      rfl

/-- **Normalising commutes with erasing comments**; the error is the same too. -/
theorem normalize_erase (mode : ClosureMode) (body : List Stmt) :
    normalize mode (erase body) = (normalize mode body).map erase := by
  induction body using body_induction with
  | nil => rfl
  | cons s rest ihs ih =>
    rw [erase, normalize_append, normalize, Stmt.normalize_erase ihs, ih]
    cases s.normalize mode with
    | error e => rfl
    | ok s' => cases normalize mode rest <;> rfl

/-- **Comments never influence control flow.** Without its comments, at any depth, a body closes iff
it does with them, it is normalised iff it is with them, to the same result without comments, and
refused with the same error. -/
theorem normalize_ignores_comments (mode : ClosureMode) (body : List Stmt) :
    (∀ text, ¬ OccursVia Anywhere (.comment text) (erase body)) ∧
    closes mode (erase body) = closes mode body ∧
    ((∃ e, normalize mode (erase body) = .error e) ↔ ∃ e, normalize mode body = .error e) ∧
    (∀ out, normalize mode body = .ok out → normalize mode (erase body) = .ok (erase out)) ∧
    ∀ e, normalize mode body = .error e → normalize mode (erase body) = .error e := by
  refine ⟨fun text => not_comment_erase text body, closes_erase mode body, ?_, ?_, ?_⟩
  · rw [normalize_erase]
    cases normalize mode body with
    | error e => exact Iff.rfl
    | ok out => constructor <;> rintro ⟨_, ⟨⟩⟩
  · intro out h
    rw [normalize_erase, h]
    rfl
  · intro e h
    rw [normalize_erase, h]
    rfl

/-- A switch with a group of comments only, and a group with comments behind its break. -/
def remarked : List Stmt :=
  [.case "v"
    [⟨[.value "1"], false, [.comment "// a"]⟩,
      ⟨[.otherwise], false, [.block [.leave none, .comment "// b"], .comment "// c"]⟩]]

theorem normalize_ignores_comments_remarked :
    normalize .strict remarked = .ok [.case "v"
      [⟨[.value "1"], true, [.comment "// a", .block [.comment "// b"], .comment "// c"]⟩,
        ⟨[.otherwise], true, [.block [.comment "// b"], .comment "// c"]⟩]] ∧
    normalize .strict (erase remarked) =
      .ok [.case "v" [⟨[.value "1"], true, [.block []]⟩, ⟨[.otherwise], true, [.block []]⟩]] :=
  ⟨rfl, (normalize_ignores_comments .strict remarked).2.2.2.1 _ rfl⟩

end Rubify.Flow
