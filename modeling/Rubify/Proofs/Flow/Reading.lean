import Rubify.Proofs.Flow.Bodies

/-!
# Two readings of a body

A body can be run in two ways that differ in what a switch does (`Reading`). Read as `falling`,
control enters a group and falls through into the groups behind it, and an unlabelled break leaves
the switch; read as `selecting`, one branch runs and an unlabelled break passes through the switch.

The texts of a body are opaque: a `Meaning` says what they do to a state, as any functions. A run
is bounded in the rounds of its loops; it gives an `Outcome` if it ends within the bound, with the
final state, the trace of everything evaluated on the way, and how it ended. The outcome also holds
the groups that were `passed`, those whose bodies completed normally so that control fell on.

What a run says about the body that was run:

* **`Stmt.run_fromBodies`**: breaks and passed groups come out of the bodies of a statement;
* `runAll_leave`: a run that ends in a break met that break;
* `runAll_passed`: every group passed was run and completed normally.
-/

namespace Rubify.Flow

/-! ## Worlds -/

/-- What the texts of a body mean, over states `σ` and switch values `ν`. Every evaluation may also
change the state. -/
structure Meaning (σ ν : Type) where
  /-- What an opaque statement does. -/
  effect : String → σ → σ
  /-- Evaluates a condition. -/
  test : String → σ → Bool × σ
  /-- Evaluates the value of a switch. -/
  value : String → σ → ν × σ
  /-- Tests the value of a switch against a label. -/
  hit : String → ν → σ → Bool × σ

/-- Something that a run does. -/
inductive Event
  | effect (text : String)
  | test (condition : String) (holds : Bool)
  | value (text : String)
  | label (text : String) (hit : Bool)
  deriving DecidableEq, Repr

/-- A state, and what was done to reach it. -/
structure World (σ : Type) where
  state : σ
  trace : List Event

/-- How a run ends. -/
inductive Ending
  | normal
  | leave (label : Option String)
  | return (value : Option String)
  | raise (value : String)
  deriving DecidableEq, Repr

/-- The outcome of a run; `passed` holds the bodies of the switch groups that completed normally. -/
structure Outcome (σ : Type) where
  ending : Ending
  world : World σ
  passed : List (List Stmt)

variable {σ ν : Type}

namespace Outcome

/-- The outcome of a run that passed no group. -/
def of (e : Ending) (w : World σ) : Outcome σ := ⟨e, w, []⟩

/-- The outcome with an ending turned into normal completion. -/
def caught (o : Outcome σ) (e : Ending) : Outcome σ :=
  if o.ending = e then { o with ending := .normal } else o

/-- The outcome of a run in front of which groups were passed. -/
def after (o : Outcome σ) (passed : List (List Stmt)) : Outcome σ :=
  { o with passed := passed ++ o.passed }

/-- Goes on after a normal completion. -/
def andThen (o : Outcome σ) (next : World σ → Option (Outcome σ)) : Option (Outcome σ) :=
  if o.ending = .normal then (next o.world).map (·.after o.passed) else some o

/-- Notes the body of a group that completed normally. -/
def noted (o : Outcome σ) (body : List Stmt) : Outcome σ :=
  if o.ending = .normal then { o with passed := o.passed ++ [body] } else o

end Outcome

namespace Meaning

/-- Runs an opaque statement. -/
def perform (m : Meaning σ ν) (text : String) (w : World σ) : World σ :=
  ⟨m.effect text w.state, w.trace ++ [.effect text]⟩

/-- Evaluates a condition. -/
def decide (m : Meaning σ ν) (condition : String) (w : World σ) : Bool × World σ :=
  let (holds, state) := m.test condition w.state
  (holds, ⟨state, w.trace ++ [.test condition holds]⟩)

/-- Evaluates the value of a switch. -/
def evaluate (m : Meaning σ ν) (text : String) (w : World σ) : ν × World σ :=
  let (v, state) := m.value text w.state
  (v, ⟨state, w.trace ++ [.value text]⟩)

/-- Tests a value against labels, up to the first that it hits. -/
def hitsAny (m : Meaning σ ν) (v : ν) : List String → World σ → Bool × World σ
  | [], w => (false, w)
  | text :: rest, w =>
    let (hit, state) := m.hit text v w.state
    let w := ⟨state, w.trace ++ [.label text hit]⟩
    if hit then (true, w) else m.hitsAny v rest w

/-- The first group one of whose values is hit. -/
def firstHit (m : Meaning σ ν) (v : ν) : List (List CaseLabel) → World σ → Option Nat × World σ
  | [], w => (none, w)
  | labels :: rest, w =>
    match m.hitsAny v (values labels) w with
    | (true, w) => (some 0, w)
    | (false, w) =>
      let (i, w) := m.firstHit v rest w
      (i.map (· + 1), w)

/-- The group that a switch enters: the first one whose values are hit, otherwise the default. -/
def entry (m : Meaning σ ν) (v : ν) (groups : List (List CaseLabel)) (w : World σ) :
    Option Nat × World σ :=
  match m.firstHit v groups w with
  | (some i, w) => (some i, w)
  | (none, w) => (groups.findIdx? (·.contains .otherwise), w)

/-- Evaluates the value of a switch and looks for the group to enter. -/
def select (m : Meaning σ ν) (text : String) (groups : List (List CaseLabel)) (w : World σ) :
    Option Nat × World σ :=
  let (v, w) := m.evaluate text w
  m.entry v groups w

/-- Runs `body` while the condition holds, at most `bound` times. -/
def loop (m : Meaning σ ν) (condition : String) (body : World σ → Option (Outcome σ)) :
    Nat → World σ → Option (Outcome σ)
  | 0, _ => none
  | bound + 1, w =>
    match m.decide condition w with
    | (false, w) => some (.of .normal w)
    | (true, w) => do (← body w).andThen (m.loop condition body bound)

end Meaning

/-- States are numbers and every step adds one; conditions hold and labels are hit in even
states. -/
def counting : Meaning Nat Unit where
  effect _ s := s + 1
  test _ s := (s % 2 == 0, s + 1)
  value _ s := ((), s + 1)
  hit _ _ s := (s % 2 == 0, s + 1)

/-! ## Runs -/

/-- How a switch is read. -/
inductive Reading
  /-- Control falls through from the group entered into those behind it, and an unlabelled break
  leaves the switch. -/
  | falling
  /-- Only the branch entered runs, and an unlabelled break passes through. -/
  | selecting
  deriving DecidableEq, Repr

mutual

/-- Runs a statement, with at most `bound` rounds of any loop. -/
def Stmt.run (m : Meaning σ ν) (r : Reading) (bound : Nat) : Stmt → World σ → Option (Outcome σ)
  | .comment _, w => some (.of .normal w)
  | .other text, w => some (.of .normal (m.perform text w))
  | .leave label, w => some (.of (.leave label) w)
  | .return value, w => some (.of (.return value) w)
  | .raise value, w => some (.of (.raise value) w)
  | .block body, w => runAll m r bound body w
  | .labeled label body, w => (runAll m r bound body w).map (·.caught (.leave (some label)))
  | .ifThen condition thenBranch elseBranch, w =>
    match m.decide condition w with
    | (true, w) => runAll m r bound thenBranch w
    | (false, w) => elseRun m r bound elseBranch w
  | .loop condition body, w =>
    (m.loop condition (runAll m r bound body) bound w).map (·.caught (.leave none))
  | .case value branches, w =>
    match m.select value (branches.map Branch.labels) w with
    | (none, w) => some (.of .normal w)
    | (some i, w) =>
      match r with
      | .falling => (runFrom m r bound branches i w).map (·.caught (.leave none))
      | .selecting => runFrom m r bound branches i w

/-- Runs the statements of a body. -/
def runAll (m : Meaning σ ν) (r : Reading) (bound : Nat) :
    List Stmt → World σ → Option (Outcome σ)
  | [], w => some (.of .normal w)
  | s :: rest, w => do (← s.run m r bound w).andThen (runAll m r bound rest)

/-- Runs an `else` branch. -/
def elseRun (m : Meaning σ ν) (r : Reading) (bound : Nat) :
    Option (List Stmt) → World σ → Option (Outcome σ)
  | none, w => some (.of .normal w)
  | some body, w => runAll m r bound body w

/-- Runs a switch from the group at an index on. -/
def runFrom (m : Meaning σ ν) (r : Reading) (bound : Nat) :
    List (Branch Stmt) → Nat → World σ → Option (Outcome σ)
  | [], _, w => some (.of .normal w)
  | ⟨_, _, body⟩ :: rest, 0, w => do
    let o ← runAll m r bound body w
    match r with
    | .falling => (o.noted body).andThen (runFrom m r bound rest 0)
    | .selecting => some o
  | _ :: rest, i + 1, w => runFrom m r bound rest i w

end

/-! ## Going on and catching -/

section

variable {m : Meaning σ ν} {r : Reading} {n : Nat}

theorem Outcome.andThen_of_normal {o : Outcome σ} (h : o.ending = .normal)
    (next : World σ → Option (Outcome σ)) :
    o.andThen next = (next o.world).map (·.after o.passed) := if_pos h

theorem Outcome.andThen_of_ne {o : Outcome σ} (h : o.ending ≠ .normal)
    (next : World σ → Option (Outcome σ)) : o.andThen next = some o := if_neg h

/-- A run goes on behind a normal completion and stops at any other ending. -/
theorem Outcome.andThen_eq_some {o o' : Outcome σ} {next : World σ → Option (Outcome σ)} :
    o.andThen next = some o' ↔
      (o.ending = .normal ∧ ∃ o₁, next o.world = some o₁ ∧ o₁.after o.passed = o') ∨
      (o.ending ≠ .normal ∧ o = o') := by
  by_cases h : o.ending = .normal
  · rw [Outcome.andThen_of_normal h, Option.map_eq_some_iff]
    simp [h]
  · rw [Outcome.andThen_of_ne h]
    simp [h]

theorem Outcome.andThen_after (o : Outcome σ) (passed : List (List Stmt))
    (next : World σ → Option (Outcome σ)) :
    (o.after passed).andThen next = (o.andThen next).map (·.after passed) := by
  by_cases h : o.ending = .normal
  · rw [Outcome.andThen_of_normal h, Outcome.andThen_of_normal (o := o.after passed) h,
      Option.map_map]
    congr 1
    funext o'
    simp [Outcome.after, List.append_assoc]
  · rw [Outcome.andThen_of_ne h, Outcome.andThen_of_ne (o := o.after passed) h]
    rfl

theorem runAll_cons {s : Stmt} {rest : List Stmt} {w : World σ} {o : Outcome σ} :
    runAll m r n (s :: rest) w = some o ↔
      ∃ o₁, s.run m r n w = some o₁ ∧ o₁.andThen (runAll m r n rest) = some o := by
  rw [runAll]
  exact Option.bind_eq_some_iff

/-- Statements one after another run one after another. -/
theorem runAll_append {xs ys : List Stmt} {w : World σ} {o : Outcome σ}
    (h : runAll m r n xs w = some o) :
    runAll m r n (xs ++ ys) w = o.andThen (runAll m r n ys) := by
  induction xs generalizing w o with
  | nil =>
    cases h
    rw [List.nil_append, Outcome.andThen_of_normal rfl]
    exact Option.map_id'.symm
  | cons s xs ih =>
    obtain ⟨o₁, hs, h⟩ := runAll_cons.mp h
    rw [List.cons_append, runAll, hs]
    show o₁.andThen (runAll m r n (xs ++ ys)) = o.andThen (runAll m r n ys)
    rcases Outcome.andThen_eq_some.mp h with ⟨hn, o₂, hx, rfl⟩ | ⟨hn, rfl⟩
    · rw [Outcome.andThen_of_normal hn, ih hx, Outcome.andThen_after]
    · rw [Outcome.andThen_of_ne hn, Outcome.andThen_of_ne hn]

/-- A caught outcome ends in a break only if the outcome did, and not in the one that is caught. -/
theorem Outcome.caught_leave {o : Outcome σ} {e : Ending} {label : Option String}
    (h : (o.caught e).ending = .leave label) :
    o.ending = .leave label ∧ Ending.leave label ≠ e := by
  unfold Outcome.caught at h
  split at h
  · cases h
  · rename_i hne
    exact ⟨h, fun he => hne (h.trans he)⟩

theorem Outcome.caught_passed (o : Outcome σ) (e : Ending) : (o.caught e).passed = o.passed := by
  unfold Outcome.caught
  split <;> rfl

theorem firstHit_of_hit {v : ν} {labels : List CaseLabel} {rest : List (List CaseLabel)}
    {w w' : World σ} (h : m.hitsAny v (values labels) w = (true, w')) :
    m.firstHit v (labels :: rest) w = (some 0, w') := by
  rw [Meaning.firstHit, h]

theorem firstHit_of_miss {v : ν} {labels : List CaseLabel} {rest : List (List CaseLabel)}
    {w w' : World σ} (h : m.hitsAny v (values labels) w = (false, w')) :
    m.firstHit v (labels :: rest) w =
      ((m.firstHit v rest w').1.map (· + 1), (m.firstHit v rest w').2) := by
  rw [Meaning.firstHit, h]

/-! ## Where an outcome comes from -/

/-- A switch enters no group, or runs from some group on. -/
theorem run_case {value : String} {branches : List (Branch Stmt)} {w : World σ} {o : Outcome σ}
    (h : (Stmt.case value branches).run m r n w = some o) :
    ∃ w', o = .of .normal w' ∨ ∃ i o₁, runFrom m r n branches i w' = some o₁ ∧
      (r = .falling ∧ o = o₁.caught (.leave none) ∨ r = .selecting ∧ o = o₁) := by
  rw [Stmt.run] at h
  rcases hs : m.select value (branches.map Branch.labels) w with ⟨_ | i, w₂⟩ <;> rw [hs] at h
  · cases h
    exact ⟨w₂, Or.inl rfl⟩
  · cases r with
    | falling =>
      obtain ⟨o₁, ho, rfl⟩ := Option.map_eq_some_iff.mp h
      exact ⟨w₂, Or.inr ⟨i, o₁, ho, Or.inl ⟨rfl, rfl⟩⟩⟩
    | selecting => exact ⟨w₂, Or.inr ⟨i, o, h, Or.inr ⟨rfl, rfl⟩⟩⟩

/-- Which branch an `if` takes depends neither on the branches nor on the reading. -/
theorem run_ifThen_eq (m : Meaning σ ν) (n : Nat) (condition : String) (w : World σ) :
    (∃ w', ∀ r thenBranch elseBranch, (Stmt.ifThen condition thenBranch elseBranch).run m r n w =
      runAll m r n thenBranch w') ∨
    ∃ w', ∀ r thenBranch elseBranch, (Stmt.ifThen condition thenBranch elseBranch).run m r n w =
      elseRun m r n elseBranch w' := by
  rcases hd : m.decide condition w with ⟨_ | _, w'⟩
  · exact Or.inr ⟨w', fun r t e => by rw [Stmt.run, hd]⟩
  · exact Or.inl ⟨w', fun r t e => by rw [Stmt.run, hd]⟩

/-- An `if` runs one of its branches, or nothing where there is no `else`. -/
theorem run_ifThen {condition : String} {thenBranch : List Stmt} {elseBranch : Option (List Stmt)}
    {w : World σ} {o : Outcome σ}
    (h : (Stmt.ifThen condition thenBranch elseBranch).run m r n w = some o) :
    ∃ w', runAll m r n thenBranch w' = some o ∨
      (∃ elseBody, elseBranch = some elseBody ∧ runAll m r n elseBody w' = some o) ∨
      elseBranch = none ∧ o = .of .normal w' := by
  rcases run_ifThen_eq m n condition w with ⟨w', heq⟩ | ⟨w', heq⟩
  · exact ⟨w', Or.inl ((heq r thenBranch elseBranch).symm.trans h)⟩
  · rw [heq] at h
    cases elseBranch with
    | none => cases h; exact ⟨w', Or.inr (Or.inr ⟨rfl, rfl⟩)⟩
    | some elseBody => exact ⟨w', Or.inr (Or.inl ⟨elseBody, rfl, h⟩)⟩

/-- The group was passed in a run of one of the bodies, or is one of them and completed normally. -/
def PassedIn (m : Meaning σ ν) (r : Reading) (n : Nat) (bodies : List (List Stmt))
    (g : List Stmt) : Prop :=
  ∃ b ∈ bodies, ∃ w o, runAll m r n b w = some o ∧ (g ∈ o.passed ∨ g = b ∧ o.ending = .normal)

/-- An outcome that runs of some bodies explain. -/
structure FromBodies (m : Meaning σ ν) (r : Reading) (n : Nat) (bodies : List (List Stmt))
    (o : Outcome σ) : Prop where
  /-- A break that ends it ended the run of a body. -/
  leave : ∀ {label : Option String}, o.ending = .leave label →
    ∃ b ∈ bodies, ∃ w o', runAll m r n b w = some o' ∧ o'.ending = .leave label
  passed : ∀ g ∈ o.passed, PassedIn m r n bodies g

namespace FromBodies

variable {bodies : List (List Stmt)} {o : Outcome σ} {w : World σ}

theorem idle {e : Ending} (h : ∀ label, e ≠ .leave label) :
    FromBodies m r n bodies (.of e w) :=
  ⟨fun he => absurd he (h _), fun _ hg => absurd hg List.not_mem_nil⟩

theorem of_run {b : List Stmt} (hb : b ∈ bodies) (h : runAll m r n b w = some o) :
    FromBodies m r n bodies o :=
  ⟨fun he => ⟨b, hb, w, o, h, he⟩, fun _ hg => ⟨b, hb, w, o, h, Or.inl hg⟩⟩

theorem mono {bodies' : List (List Stmt)} (h : FromBodies m r n bodies o)
    (hsub : bodies ⊆ bodies') : FromBodies m r n bodies' o := by
  constructor
  · intro label he
    obtain ⟨b, hb, hrun⟩ := h.leave he
    exact ⟨b, hsub hb, hrun⟩
  · intro g hg
    obtain ⟨b, hb, hrun⟩ := h.passed g hg
    exact ⟨b, hsub hb, hrun⟩

theorem caught (h : FromBodies m r n bodies o) (e : Ending) :
    FromBodies m r n bodies (o.caught e) := by
  refine ⟨fun he => h.leave (Outcome.caught_leave he).1, fun g hg => h.passed g ?_⟩
  rwa [Outcome.caught_passed] at hg

theorem after (h : FromBodies m r n bodies o) {passed : List (List Stmt)}
    (hp : ∀ g ∈ passed, PassedIn m r n bodies g) : FromBodies m r n bodies (o.after passed) :=
  ⟨h.leave, fun g hg => (List.mem_append.mp hg).elim (hp g) (h.passed g)⟩

end FromBodies

/-- A loop is explained by its rounds. -/
theorem loop_fromBodies {condition : String} {body : List Stmt} :
    ∀ {k : Nat} {w : World σ} {o : Outcome σ},
      m.loop condition (runAll m r n body) k w = some o → FromBodies m r n [body] o
  | k + 1, w, o, h => by
    rw [Meaning.loop] at h
    rcases hd : m.decide condition w with ⟨_ | _, w'⟩ <;> rw [hd] at h
    · cases h
      exact .idle nofun
    · obtain ⟨o₁, hb, h⟩ := Option.bind_eq_some_iff.mp h
      have round : FromBodies m r n [body] o₁ := .of_run (List.mem_singleton_self body) hb
      rcases Outcome.andThen_eq_some.mp h with ⟨-, o₂, hl, rfl⟩ | ⟨-, rfl⟩
      · exact (loop_fromBodies hl).after round.passed
      · exact round

/-- Control falls from a group that completes normally into the groups behind it. -/
theorem runFrom_falling_cons {b : Branch Stmt} {rest : List (Branch Stmt)} {w : World σ}
    {o : Outcome σ} :
    runFrom m .falling n (b :: rest) 0 w = some o ↔
      ∃ o₁, runAll m .falling n b.body w = some o₁ ∧
        ((o₁.ending = .normal ∧ ∃ o₂, runFrom m .falling n rest 0 o₁.world = some o₂ ∧
          o₂.after (o₁.passed ++ [b.body]) = o) ∨ (o₁.ending ≠ .normal ∧ o₁ = o)) := by
  rw [runFrom]
  refine Option.bind_eq_some_iff.trans (exists_congr fun o₁ => and_congr_right fun _ => ?_)
  by_cases hn : o₁.ending = .normal
  · simp [Outcome.noted, Outcome.andThen, hn]
  · simp [Outcome.noted, Outcome.andThen, hn]

/-- A switch is explained by its groups. -/
theorem runFrom_fromBodies {branches : List (Branch Stmt)} {i : Nat} {w : World σ} {o : Outcome σ}
    (h : runFrom m r n branches i w = some o) :
    FromBodies m r n (branches.map Branch.body) o := by
  induction branches generalizing i w o with
  | nil =>
    cases h
    exact .idle nofun
  | cons b rest ih =>
    have later {i : Nat} {w : World σ} {o : Outcome σ} (h : runFrom m r n rest i w = some o) :
        FromBodies m r n ((b :: rest).map Branch.body) o := (ih h).mono (List.subset_cons_self _ _)
    cases i with
    | succ i => exact later h
    | zero =>
      cases r with
      | selecting =>
        rw [runFrom] at h
        obtain ⟨o₁, hb, h⟩ := Option.bind_eq_some_iff.mp h
        cases h
        exact .of_run List.mem_cons_self hb
      | falling =>
        obtain ⟨o₁, hb, ⟨hn, o₂, hl, rfl⟩ | ⟨-, rfl⟩⟩ := runFrom_falling_cons.mp h
        · refine (later hl).after fun g hg => ⟨b.body, List.mem_cons_self, w, o₁, hb, ?_⟩
          rcases List.mem_append.mp hg with hg | hg
          · exact Or.inl hg
          · exact Or.inr ⟨List.mem_singleton.mp hg, hn⟩
        · exact .of_run List.mem_cons_self hb

/-- **A statement is a break, or its run is explained by its bodies.** -/
theorem Stmt.run_fromBodies {s : Stmt} {w : World σ} {o : Outcome σ}
    (h : s.run m r n w = some o) :
    (∃ label, s = .leave label ∧ o = .of (.leave label) w) ∨ FromBodies m r n s.bodies o := by
  cases s with
  | comment text => cases h; exact Or.inr (.idle nofun)
  | other text => cases h; exact Or.inr (.idle nofun)
  | «return» value => cases h; exact Or.inr (.idle nofun)
  | raise value => cases h; exact Or.inr (.idle nofun)
  | leave label => cases h; exact Or.inl ⟨label, rfl, rfl⟩
  | block body => exact Or.inr (.of_run (List.mem_singleton_self body) h)
  | labeled label body =>
    obtain ⟨o₁, hb, rfl⟩ := Option.map_eq_some_iff.mp h
    exact Or.inr ((FromBodies.of_run (List.mem_singleton_self body) hb).caught _)
  | ifThen condition thenBranch elseBranch =>
    obtain ⟨w', ht | ⟨elseBody, rfl, ht⟩ | ⟨-, rfl⟩⟩ := run_ifThen h
    · exact Or.inr (.of_run List.mem_cons_self ht)
    · exact Or.inr (.of_run (b := elseBody) (by simp [Stmt.bodies]) ht)
    · exact Or.inr (.idle nofun)
  | loop condition body =>
    rw [Stmt.run] at h
    obtain ⟨o₁, hl, rfl⟩ := Option.map_eq_some_iff.mp h
    exact Or.inr ((loop_fromBodies hl).caught _)
  | case value branches =>
    obtain ⟨w', rfl | ⟨i, o₁, hf, ⟨-, rfl⟩ | ⟨-, rfl⟩⟩⟩ := run_case h
    · exact Or.inr (.idle nofun)
    · exact Or.inr ((runFrom_fromBodies hf).caught _)
    · exact Or.inr (runFrom_fromBodies hf)

/-- No unlabelled break gets out of a loop. -/
theorem Stmt.run_ne_leave_of_isLoop {s : Stmt} (hs : s.isLoop = true) {w : World σ}
    {o : Outcome σ} (h : s.run m r n w = some o) : o.ending ≠ .leave none := by
  cases s with
  | loop condition body =>
    rw [Stmt.run] at h
    obtain ⟨o₁, -, rfl⟩ := Option.map_eq_some_iff.mp h
    exact fun he => (Outcome.caught_leave he).2 rfl
  | _ => cases hs

/-! ## What outcomes say about bodies -/

/-- A run that ends in a break meets this break, below no loop if it has no label. -/
theorem runAll_leave (body : List Stmt) : ∀ {w : World σ} {o : Outcome σ} {label : Option String},
    runAll m r n body w = some o → o.ending = .leave label →
      OccursVia (fun s _ => label = none → s.isLoop = false) (.leave label) body := by
  induction body using body_induction with
  | nil =>
    intro w o label h he
    cases h
    cases he
  | cons s rest hs hrest =>
    intro w o label h he
    rw [occursVia_cons]
    obtain ⟨o₁, hrun, h⟩ := runAll_cons.mp h
    rcases Outcome.andThen_eq_some.mp h with ⟨-, o₂, hr, rfl⟩ | ⟨-, rfl⟩
    · exact Or.inr (Or.inr (hrest hr he))
    rcases Stmt.run_fromBodies hrun with ⟨label', rfl, rfl⟩ | hfrom
    · cases he
      exact Or.inl rfl
    · obtain ⟨b, hb, w', o', hrun', he'⟩ := hfrom.leave he
      refine Or.inr (Or.inl ⟨b, hb, ?_, hs b hb hrun' he'⟩)
      rintro rfl
      exact Bool.eq_false_iff.mpr fun hl => Stmt.run_ne_leave_of_isLoop hl hrun he

/-- Every group that a run passes was run and completed normally. -/
theorem runAll_passed (body : List Stmt) : ∀ {w : World σ} {o : Outcome σ},
    runAll m r n body w = some o → ∀ g ∈ o.passed,
      ∃ w' o', runAll m r n g w' = some o' ∧ o'.ending = .normal := by
  induction body using body_induction with
  | nil =>
    intro w o h g hg
    cases h
    cases hg
  | cons s rest hs hrest =>
    intro w o h g hg
    obtain ⟨o₁, hrun, h⟩ := runAll_cons.mp h
    have first (hg : g ∈ o₁.passed) :
        ∃ w' o', runAll m r n g w' = some o' ∧ o'.ending = .normal := by
      rcases Stmt.run_fromBodies hrun with ⟨label, rfl, rfl⟩ | hfrom
      · cases hg
      · obtain ⟨b, hb, w', o', hrun', hg | ⟨rfl, hn⟩⟩ := hfrom.passed g hg
        · exact hs b hb hrun' g hg
        · exact ⟨w', o', hrun', hn⟩
    rcases Outcome.andThen_eq_some.mp h with ⟨-, o₂, hr, rfl⟩ | ⟨-, rfl⟩
    · exact (List.mem_append.mp hg).elim first (hrest hr g)
    · exact first hg

end

end Rubify.Flow
