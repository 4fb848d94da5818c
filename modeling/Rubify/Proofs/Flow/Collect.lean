import Rubify.Proofs.Flow.Bodies
import Rubify.Proofs.Flow.Merge
import Mathlib.Data.List.Forall2

/-!
# What collecting a group does

`collect` walks the end of a body and normalises the rest. Here it is taken apart into three things
that can be reasoned about one by one: `normalize`, `closes`, and `trim`, which removes the
unlabelled breaks in closing position.

* **`collect_eq`**: collecting is normalising, then trimming if breaks are to be dropped, and the
  verdict is that of `closes`; also the errors are the same (`collect_agrees` says it case by case).
* **`Stmt.normalized_of_normalize`**: what `normalize` makes of one statement, with everything it
  checks on the way; `Collected` says the same of one group of a switch, and `collectGroups_cons` of
  the first of several.
-/

namespace Rubify.Flow

/-! ## Trimming -/

mutual

/-- The statements that stand for a last statement without the unlabelled breaks at its end. -/
def Stmt.trim : Stmt → List Stmt
  | .leave none => []
  | .block body => [.block (trim body)]
  | .ifThen condition thenBranch elseBranch =>
    [.ifThen condition (trim thenBranch) (elseTrim elseBranch)]
  | .leave (some label) => [.leave (some label)]
  | .comment text => [.comment text]
  | .other text => [.other text]
  | .loop condition body => [.loop condition body]
  | .labeled label body => [.labeled label body]
  | .case value branches => [.case value branches]
  | .return value => [.return value]
  | .raise value => [.raise value]

/-- A body without the unlabelled breaks in closing position. -/
def trim : List Stmt → List Stmt
  | [] => []
  | s :: rest => if rest.all Stmt.isComment then s.trim ++ rest else s :: trim rest

/-- An `else` branch without the unlabelled breaks in closing position. -/
def elseTrim : Option (List Stmt) → Option (List Stmt)
  | none => none
  | some body => some (trim body)

end

/-- A body, trimmed if breaks are to be dropped. -/
def trimIf (drop : Bool) (body : List Stmt) : List Stmt :=
  if drop then trim body else body

/-! ## Successful steps -/

/-- Two steps succeed iff the first does and the second does on its result. -/
theorem bind_eq_ok {ε α β : Type} {x : Except ε α} {f : α → Except ε β} {b : β} :
    (x >>= f) = .ok b ↔ ∃ a, x = .ok a ∧ f a = .ok b := by
  cases x with
  | error e => simp [bind, Except.bind]
  | ok a => simp [bind, Except.bind]

theorem map_eq_ok {ε α β : Type} {x : Except ε α} {f : α → β} {b : β} :
    x.map f = .ok b ↔ ∃ a, x = .ok a ∧ f a = b := by
  cases x with
  | error e => simp [Except.map]
  | ok a => simp [Except.map]

/-! ## Comments are normal already -/

theorem Stmt.normalize_isComment {mode : ClosureMode} {s s' : Stmt}
    (h : s.normalize mode = .ok s') :
    s'.isComment = s.isComment := by
  cases s <;> simp only [Stmt.normalize, bind, Except.bind, pure, Except.pure] at h <;>
    (repeat' split at h) <;> cases h <;> rfl

theorem normalize_of_comments (mode : ClosureMode) :
    ∀ {body : List Stmt}, body.all Stmt.isComment = true → normalize mode body = .ok body
  | [], _ => rfl
  | s :: rest, h => by
    rw [List.all_cons, Bool.and_eq_true] at h
    cases s with
    | comment text =>
      simp [normalize, Stmt.normalize, normalize_of_comments mode h.2, bind, Except.bind, pure,
        Except.pure]
    | _ => exact absurd h.1 (by simp [Stmt.isComment])

/-- What `normalize` makes of a body that begins with a statement. -/
theorem normalize_cons {mode : ClosureMode} {s : Stmt} {rest out : List Stmt}
    (h : normalize mode (s :: rest) = .ok out) :
    ∃ s' rest', s.normalize mode = .ok s' ∧ normalize mode rest = .ok rest' ∧
      out = s' :: rest' := by
  rw [normalize, bind_eq_ok] at h
  obtain ⟨s', hs, h⟩ := h
  obtain ⟨rest', hr, h⟩ := bind_eq_ok.mp h
  cases h
  exact ⟨s', rest', hs, hr, rfl⟩

theorem normalize_all_isComment {mode : ClosureMode} :
    ∀ {body out : List Stmt}, normalize mode body = .ok out →
      out.all Stmt.isComment = body.all Stmt.isComment
  | [], out, h => by cases h; rfl
  | s :: rest, out, h => by
    obtain ⟨s', rest', hs, hr, rfl⟩ := normalize_cons h
    rw [List.all_cons, List.all_cons, Stmt.normalize_isComment hs, normalize_all_isComment hr]

/-! ## Collecting is normalising and trimming -/

/-- The statement that `collect_eq` makes of one body. -/
def CollectSplits (mode : ClosureMode) (drop : Bool) (body : List Stmt) : Prop :=
  collect mode drop body =
    (normalize mode body).map fun out => (trimIf drop out, closes mode body)

/-- One last statement is collected as it is normalised and trimmed, if the bodies inside it are. -/
theorem Stmt.collect_eq (mode : ClosureMode) (drop : Bool) {s : Stmt}
    (ih : ∀ b ∈ s.bodies, CollectSplits mode drop b) :
    s.collect mode drop =
      (s.normalize mode).map fun s' => (if drop then s'.trim else [s'], s.closes mode) := by
  cases s with
  | leave label => cases label <;> cases drop <;> rfl
  | comment text => cases drop <;> rfl
  | other text => cases drop <;> rfl
  | «return» value => cases drop <;> rfl
  | raise value => cases drop <;> rfl
  | loop condition body =>
    rw [Stmt.collect, Stmt.normalize]
    cases Flow.normalize mode body <;> cases drop <;> rfl
  | labeled label body =>
    rw [Stmt.collect, Stmt.normalize]
    cases Flow.normalize mode body <;> cases drop <;> rfl
  | case value branches =>
    rw [Stmt.collect_case, Stmt.normalize_case]
    cases collectGroups mode false branches <;> cases drop <;> rfl
  | block body =>
    have hb : CollectSplits mode drop body := ih body (by simp [Stmt.bodies])
    rw [Stmt.collect, Stmt.normalize, hb]
    cases Flow.normalize mode body <;> cases drop <;> rfl
  | ifThen condition thenBranch elseBranch =>
    have ht : CollectSplits mode drop thenBranch := ih thenBranch (by simp [Stmt.bodies])
    rw [Stmt.collect, Stmt.normalize, ht]
    cases elseBranch with
    | none =>
      cases Flow.normalize mode thenBranch <;> cases drop <;> rfl
    | some elseBody =>
      have he : CollectSplits mode drop elseBody := ih elseBody (by simp [Stmt.bodies])
      rw [elseCollect, elseNormalize, he]
      cases Flow.normalize mode thenBranch <;> cases Flow.normalize mode elseBody <;>
        cases drop <;> rfl

/-- **Collecting is normalising and trimming**, and its verdict is that of `closes`. -/
theorem collect_eq (mode : ClosureMode) (drop : Bool) (body : List Stmt) :
    collect mode drop body =
      (normalize mode body).map fun out => (trimIf drop out, closes mode body) := by
  induction body using body_induction with
  | nil => cases drop <;> rfl
  | cons s rest ihs ih =>
    have hs := Stmt.collect_eq mode drop ihs
    rw [collect, normalize, closes]
    by_cases hc : rest.all Stmt.isComment = true
    · rw [if_pos hc, if_pos hc, hs, normalize_of_comments mode hc]
      cases s.normalize mode with
      | error e => rfl
      | ok s' =>
        cases drop <;>
          simp [Except.map, bind, Except.bind, pure, Except.pure, trimIf, trim, hc]
    · rw [if_neg hc, if_neg hc, ih]
      cases s.normalize mode with
      | error e => rfl
      | ok s' =>
        cases hr : normalize mode rest with
        | error e => rfl
        | ok rest' =>
          have hc' : ¬ rest'.all Stmt.isComment = true := by rwa [normalize_all_isComment hr]
          cases drop <;>
            simp [Except.map, bind, Except.bind, pure, Except.pure, trimIf, trim, hc']

/-- **The two verdicts on a body agree.** Where `collect` succeeds, it has found out about the end of
the body what `closes` says of it, whether breaks are dropped or not. If none are, its statements
are those of `normalize`, and in either case both refuse a body with the same error. -/
theorem collect_agrees (mode : ClosureMode) (drop : Bool) (body : List Stmt) :
    (∀ stmts ends, collect mode drop body = .ok (stmts, ends) →
      ends = closes mode body ∧ (drop = false → normalize mode body = .ok stmts)) ∧
    ∀ e, collect mode drop body = .error e ↔ normalize mode body = .error e := by
  rw [collect_eq]
  refine ⟨fun stmts ends h => ?_, fun e => ?_⟩
  · obtain ⟨out, hn, hout⟩ := map_eq_ok.mp h
    cases hout
    refine ⟨rfl, fun hdrop => ?_⟩
    rw [hn, hdrop]
    rfl
  · cases normalize mode body with
    | error e' => simp [Except.map]
    | ok out => simp [Except.map]

/-- A block at the end of a body, with an `if` at its end: one branch closes by a break with a
comment behind it, the other by an `if` without `else`, which the modes disagree on. -/
def nestedEnds : List Stmt :=
  [.case "v" [⟨[.value "1"], false, [.leave none]⟩],
    .block [.ifThen "x" [.leave none, .comment "done"]
      (some [.other "a", .ifThen "y" [.return none] none])],
    .comment "end"]

/-- The break is dropped or not; the verdict is the same and depends on the mode alone. -/
theorem collect_agrees_nestedEnds :
    collect .compatible true nestedEnds =
      .ok ([.case "v" [⟨[.value "1"], true, []⟩],
        .block [.ifThen "x" [.comment "done"] (some [.other "a", .ifThen "y" [.return none] none])],
        .comment "end"], true) ∧
    closes .compatible nestedEnds = true ∧ closes .strict nestedEnds = false ∧
    ∃ stmts, collect .strict false nestedEnds = .ok (stmts, false) ∧
      normalize .strict nestedEnds = .ok stmts := by
  have hdropped : collect .compatible true nestedEnds =
      .ok ([.case "v" [⟨[.value "1"], true, []⟩],
        .block [.ifThen "x" [.comment "done"] (some [.other "a", .ifThen "y" [.return none] none])],
        .comment "end"], true) := rfl
  have hkept : collect .strict false nestedEnds =
      .ok ([.case "v" [⟨[.value "1"], true, []⟩],
        .block [.ifThen "x" [.leave none, .comment "done"]
          (some [.other "a", .ifThen "y" [.return none] none])],
        .comment "end"], false) := rfl
  have hcompatible := (collect_agrees .compatible true nestedEnds).1 _ _ hdropped
  have hstrict := (collect_agrees .strict false nestedEnds).1 _ _ hkept
  exact ⟨hdropped, hcompatible.1.symm, hstrict.1.symm, _, hkept, hstrict.2 rfl⟩

/-! ## What normalising makes of a statement -/

/-- What becomes of one group of a switch. -/
structure Collected (mode : ClosureMode) (branch : Branch Stmt) (group : Group) : Prop where
  labels : group.labels = branch.labels
  wasOpen : branch.closed = false
  closed : group.closed = closes mode branch.body
  body : ∃ out, normalize mode branch.body = .ok out ∧
    group.body = trimIf (closes mode branch.body) out

/-- The first group is refused, or it is normalised and trimmed before the others are collected. -/
theorem collectGroups_cons (mode : ClosureMode) (seen : Bool) (b : Branch Stmt)
    (rest : List (Branch Stmt)) : collectGroups mode seen (b :: rest) =
      if b.closed = true then .error .closedBranch
      else if (b.isDefault && seen) = true then .error .secondDefault
      else do
        let out ← normalize mode b.body
        let groups ← collectGroups mode (seen || b.isDefault) rest
        return ⟨b.labels, trimIf (closes mode b.body) out, closes mode b.body⟩ :: groups := by
  obtain ⟨labels, closed, body⟩ := b
  rw [collectGroups, collect_eq]
  cases closed with
  | true => rfl
  | false =>
    show (if (labels.contains CaseLabel.otherwise && seen) = true then _ else _) =
      if (labels.contains CaseLabel.otherwise && seen) = true then _ else _
    split
    · rfl
    · cases normalize mode body <;> rfl

/-- Where groups are collected, the first was open, is not a second default, and is normalised. -/
theorem collectGroups_cons_ok {mode : ClosureMode} {seen : Bool} {b : Branch Stmt}
    {rest : List (Branch Stmt)} {groups : List Group}
    (h : collectGroups mode seen (b :: rest) = .ok groups) :
    ∃ g groups', groups = g :: groups' ∧ Collected mode b g ∧ (b.isDefault && seen) = false ∧
      collectGroups mode (seen || b.isDefault) rest = .ok groups' := by
  rw [collectGroups_cons] at h
  split at h
  · cases h
  split at h
  · cases h
  rename_i hopen hdefault
  obtain ⟨out, hn, h⟩ := bind_eq_ok.mp h
  obtain ⟨groups', hg, h⟩ := bind_eq_ok.mp h
  cases h
  exact ⟨_, groups', rfl, ⟨rfl, Bool.eq_false_iff.mpr hopen, rfl, out, hn, rfl⟩,
    Bool.eq_false_iff.mpr hdefault, hg⟩

theorem collectGroups_collected {mode : ClosureMode} :
    ∀ {branches : List (Branch Stmt)} {seen : Bool} {groups : List Group},
      collectGroups mode seen branches = .ok groups → List.Forall₂ (Collected mode) branches groups
  | [], seen, groups, h => by cases h; exact .nil
  | b :: rest, seen, groups, h => by
    obtain ⟨g, groups', rfl, hc, -, hg⟩ := collectGroups_cons_ok h
    exact .cons hc (collectGroups_collected hg)

/-- What `normalize` can make of one statement. -/
inductive Stmt.Normalized (mode : ClosureMode) : Stmt → Stmt → Prop
  /-- A statement without bodies stays. -/
  | plain {s : Stmt} : s.bodies = [] → s.isCase = false → Normalized mode s s
  | block {body out : List Stmt} :
      Flow.normalize mode body = .ok out → Normalized mode (.block body) (.block out)
  | ifOnly {condition : String} {body out : List Stmt} : Flow.normalize mode body = .ok out →
      Normalized mode (.ifThen condition body none) (.ifThen condition out none)
  | ifElse {condition : String} {body out elseBody elseOut : List Stmt} :
      Flow.normalize mode body = .ok out → Flow.normalize mode elseBody = .ok elseOut →
      Normalized mode (.ifThen condition body (some elseBody))
        (.ifThen condition out (some elseOut))
  | loop {condition : String} {body out : List Stmt} :
      Flow.normalize mode body = .ok out →
        Normalized mode (.loop condition body) (.loop condition out)
  | labeled {label : String} {body out : List Stmt} :
      Flow.normalize mode body = .ok out →
        Normalized mode (.labeled label body) (.labeled label out)
  | case {value : String} {branches : List (Branch Stmt)} {groups : List Group} :
      collectGroups mode false branches = .ok groups →
      Normalized mode (.case value branches) (.case value (merge groups))

theorem Stmt.normalized_of_normalize {mode : ClosureMode} {s s' : Stmt}
    (h : s.normalize mode = .ok s') : s.Normalized mode s' := by
  cases s with
  | comment text => cases h; exact .plain rfl rfl
  | other text => cases h; exact .plain rfl rfl
  | leave label => cases h; exact .plain rfl rfl
  | «return» value => cases h; exact .plain rfl rfl
  | raise value => cases h; exact .plain rfl rfl
  | block body =>
    obtain ⟨out, ho, h⟩ := bind_eq_ok.mp h
    cases h
    exact .block ho
  | loop condition body =>
    obtain ⟨out, ho, h⟩ := bind_eq_ok.mp h
    cases h
    exact .loop ho
  | labeled label body =>
    obtain ⟨out, ho, h⟩ := bind_eq_ok.mp h
    cases h
    exact .labeled ho
  | case value branches =>
    rw [Stmt.normalize_case] at h
    obtain ⟨groups, hg, h⟩ := bind_eq_ok.mp h
    cases h
    exact .case hg
  | ifThen condition thenBranch elseBranch =>
    obtain ⟨out, ho, h⟩ := bind_eq_ok.mp h
    obtain ⟨elseOut, he, h⟩ := bind_eq_ok.mp h
    cases h
    cases elseBranch with
    | none => cases he; exact .ifOnly ho
    | some elseBody =>
      obtain ⟨elseBodyOut, hb, he⟩ := bind_eq_ok.mp he
      cases he
      exact .ifElse ho hb

/-- Outside switches, the bodies of a normalised statement are the normalised bodies. -/
theorem Stmt.Normalized.bodies {mode : ClosureMode} {s s' : Stmt} (h : s.Normalized mode s')
    (hs : s.isCase = false) :
    s'.isCase = false ∧ s'.isLoop = s.isLoop ∧
      ∀ b' ∈ s'.bodies, ∃ b ∈ s.bodies, Flow.normalize mode b = .ok b' := by
  cases h with
  | plain hb hc =>
    refine ⟨hc, rfl, fun b' hb' => ?_⟩
    rw [hb] at hb'
    cases hb'
  | block hn | loop hn | labeled hn | ifOnly hn =>
    exact ⟨rfl, rfl, fun b' hb' => ⟨_, List.mem_singleton.mpr rfl, List.mem_singleton.mp hb' ▸ hn⟩⟩
  | ifElse hn he =>
    refine ⟨rfl, rfl, fun b' hb' => ?_⟩
    rcases List.mem_cons.mp hb' with rfl | hb'
    · exact ⟨_, List.mem_cons_self, hn⟩
    · obtain rfl := List.mem_singleton.mp hb'
      exact ⟨_, List.mem_cons_of_mem _ (List.mem_singleton.mpr rfl), he⟩
  | case hg => cases hs

end Rubify.Flow
