import Rubify.Proofs.Flow.Reading

/-!
# Bodies that never complete

`closes` looks at the last statement of a body. In strict mode its verdict is sound: control never
falls off the end of a body that closes. The statement is about more than the runs of a `Meaning`:
the texts of a body may do anything here (`Behaviour`). They are relations between states, so they
can be undetermined, never come to an end, and raise where a result is expected.

`Ends b body s e s'` says that the body, read with fall-through, can go from `s` to `s'` and end as
`e` says; a body that runs forever from `s` ends in no way. `ends_of_run` ties it to the bounded
runs: what a run of a `Meaning` comes to is a way in which the body ends.

Headline: **`ends_abruptly_of_closes_strict`**.
-/

namespace Rubify.Flow

/-- What the texts of a body can do, over states `σ` and switch values `ν`. In place of a result a
text may raise. -/
structure Behaviour (σ ν : Type) where
  effect : String → σ → Except String Unit → σ → Prop
  test : String → σ → Except String Bool → σ → Prop
  value : String → σ → Except String ν → σ → Prop
  /-- Tests the value of a switch against a label. -/
  hit : String → ν → σ → Except String Bool → σ → Prop

variable {σ ν : Type}

/-- The ending, with one kind of it turned into normal completion. -/
def Ending.caught (e kind : Ending) : Ending := if e = kind then .normal else e

/-! ## Entering a switch -/

namespace Behaviour

/-- A value is tested against labels, up to the first that it hits. -/
inductive HitsAny (b : Behaviour σ ν) (v : ν) : List String → σ → Except String Bool → σ → Prop
  | none {s : σ} : HitsAny b v [] s (.ok false) s
  | hit {text : String} {rest : List String} {s s' : σ} :
      b.hit text v s (.ok true) s' → HitsAny b v (text :: rest) s (.ok true) s'
  | miss {text : String} {rest : List String} {s s₁ s' : σ} {r : Except String Bool} :
      b.hit text v s (.ok false) s₁ → HitsAny b v rest s₁ r s' →
        HitsAny b v (text :: rest) s r s'
  | raises {text x : String} {rest : List String} {s s' : σ} :
      b.hit text v s (.error x) s' → HitsAny b v (text :: rest) s (.error x) s'

/-- The groups of a switch are tested in order, up to the first one of whose values is hit. -/
inductive FirstHit (b : Behaviour σ ν) (v : ν) :
    List (List CaseLabel) → σ → Except String (Option Nat) → σ → Prop
  | none {s : σ} : FirstHit b v [] s (.ok none) s
  | hit {labels : List CaseLabel} {rest : List (List CaseLabel)} {s s' : σ} :
      b.HitsAny v (values labels) s (.ok true) s' →
      FirstHit b v (labels :: rest) s (.ok (some 0)) s'
  | miss {labels : List CaseLabel} {rest : List (List CaseLabel)} {s s₁ s' : σ}
      {r : Except String (Option Nat)} :
      b.HitsAny v (values labels) s (.ok false) s₁ → FirstHit b v rest s₁ r s' →
        FirstHit b v (labels :: rest) s (r.map fun i => i.map (· + 1)) s'
  | raises {labels : List CaseLabel} {rest : List (List CaseLabel)} {s s' : σ} {x : String} :
      b.HitsAny v (values labels) s (.error x) s' → FirstHit b v (labels :: rest) s (.error x) s'

/-- The value of a switch is evaluated, and the group to enter is looked for: the first one whose
values are hit, otherwise the default. -/
inductive Selects (b : Behaviour σ ν) (text : String) (groups : List (List CaseLabel)) :
    σ → Except String (Option Nat) → σ → Prop
  | group {v : ν} {s s₁ s' : σ} {r : Except String (Option Nat)} :
      b.value text s (.ok v) s₁ → b.FirstHit v groups s₁ r s' →
        Selects b text groups s (r.map (·.or (groups.findIdx? (·.contains .otherwise)))) s'
  | raises {s s' : σ} {x : String} :
      b.value text s (.error x) s' → Selects b text groups s (.error x) s'

end Behaviour

/-! ## How bodies end -/

mutual

/-- The statement can go from the first state to the second and end so. -/
inductive Stmt.Ends (b : Behaviour σ ν) : Stmt → σ → Ending → σ → Prop
  | comment {text : String} {s : σ} : Stmt.Ends b (.comment text) s .normal s
  | other {text : String} {s s' : σ} :
      b.effect text s (.ok ()) s' → Stmt.Ends b (.other text) s .normal s'
  | otherRaises {text x : String} {s s' : σ} :
      b.effect text s (.error x) s' → Stmt.Ends b (.other text) s (.raise x) s'
  | leave {label : Option String} {s : σ} : Stmt.Ends b (.leave label) s (.leave label) s
  | return {value : Option String} {s : σ} : Stmt.Ends b (.return value) s (.return value) s
  | raise {value : String} {s : σ} : Stmt.Ends b (.raise value) s (.raise value) s
  | block {body : List Stmt} {s s' : σ} {e : Ending} :
      Ends b body s e s' → Stmt.Ends b (.block body) s e s'
  /-- A labelled statement is left by a break that names it. -/
  | labeled {label : String} {body : List Stmt} {s s' : σ} {e : Ending} :
      Ends b body s e s' → Stmt.Ends b (.labeled label body) s (e.caught (.leave (some label))) s'
  | ifTrue {condition : String} {body : List Stmt} {elseBranch : Option (List Stmt)} {s s₁ s' : σ}
      {e : Ending} : b.test condition s (.ok true) s₁ → Ends b body s₁ e s' →
      Stmt.Ends b (.ifThen condition body elseBranch) s e s'
  | ifElse {condition : String} {body elseBody : List Stmt} {s s₁ s' : σ} {e : Ending} :
      b.test condition s (.ok false) s₁ → Ends b elseBody s₁ e s' →
      Stmt.Ends b (.ifThen condition body (some elseBody)) s e s'
  | ifOnly {condition : String} {body : List Stmt} {s s' : σ} :
      b.test condition s (.ok false) s' → Stmt.Ends b (.ifThen condition body none) s .normal s'
  | ifRaises {condition x : String} {body : List Stmt} {elseBranch : Option (List Stmt)}
      {s s' : σ} :
      b.test condition s (.error x) s' →
      Stmt.Ends b (.ifThen condition body elseBranch) s (.raise x) s'
  /-- A loop is left by an unlabelled break. -/
  | loop {condition : String} {body : List Stmt} {s s' : σ} {e : Ending} :
      RoundsEnd b condition body s e s' →
      Stmt.Ends b (.loop condition body) s (e.caught (.leave none)) s'
  | caseNone {value : String} {branches : List (Branch Stmt)} {s s' : σ} :
      b.Selects value (branches.map Branch.labels) s (.ok none) s' →
      Stmt.Ends b (.case value branches) s .normal s'
  /-- A switch is run from the group entered on, and left by an unlabelled break. -/
  | caseFrom {value : String} {branches : List (Branch Stmt)} {i : Nat} {s s₁ s' : σ} {e : Ending} :
      b.Selects value (branches.map Branch.labels) s (.ok (some i)) s₁ →
      GroupsEnd b (branches.drop i) s₁ e s' →
      Stmt.Ends b (.case value branches) s (e.caught (.leave none)) s'
  | caseRaises {value x : String} {branches : List (Branch Stmt)} {s s' : σ} :
      b.Selects value (branches.map Branch.labels) s (.error x) s' →
      Stmt.Ends b (.case value branches) s (.raise x) s'

/-- The body can go from the first state to the second and end so. -/
inductive Ends (b : Behaviour σ ν) : List Stmt → σ → Ending → σ → Prop
  | nil {s : σ} : Ends b [] s .normal s
  | next {t : Stmt} {rest : List Stmt} {s s₁ s' : σ} {e : Ending} :
      t.Ends b s .normal s₁ → Ends b rest s₁ e s' → Ends b (t :: rest) s e s'
  | stop {t : Stmt} {rest : List Stmt} {s s' : σ} {e : Ending} :
      t.Ends b s e s' → e ≠ .normal → Ends b (t :: rest) s e s'

/-- The rounds of a loop can go from the first state to the second and end so. -/
inductive RoundsEnd (b : Behaviour σ ν) : String → List Stmt → σ → Ending → σ → Prop
  | done {condition : String} {body : List Stmt} {s s' : σ} :
      b.test condition s (.ok false) s' → RoundsEnd b condition body s .normal s'
  | next {condition : String} {body : List Stmt} {s s₁ s₂ s' : σ} {e : Ending} :
      b.test condition s (.ok true) s₁ → Ends b body s₁ .normal s₂ →
      RoundsEnd b condition body s₂ e s' → RoundsEnd b condition body s e s'
  | stop {condition : String} {body : List Stmt} {s s₁ s' : σ} {e : Ending} :
      b.test condition s (.ok true) s₁ → Ends b body s₁ e s' → e ≠ .normal →
      RoundsEnd b condition body s e s'
  | raises {condition x : String} {body : List Stmt} {s s' : σ} :
      b.test condition s (.error x) s' → RoundsEnd b condition body s (.raise x) s'

/-- The groups of a switch, each falling through into the next, can go from the first state to the
second and end so. -/
inductive GroupsEnd (b : Behaviour σ ν) : List (Branch Stmt) → σ → Ending → σ → Prop
  | nil {s : σ} : GroupsEnd b [] s .normal s
  | next {g : Branch Stmt} {rest : List (Branch Stmt)} {s s₁ s' : σ} {e : Ending} :
      Ends b g.body s .normal s₁ → GroupsEnd b rest s₁ e s' → GroupsEnd b (g :: rest) s e s'
  | stop {g : Branch Stmt} {rest : List (Branch Stmt)} {s s' : σ} {e : Ending} :
      Ends b g.body s e s' → e ≠ .normal → GroupsEnd b (g :: rest) s e s'

end

/-! ## Closing bodies -/

/-- A statement that closes in strict mode does not complete normally, if this is so of the bodies
inside it. -/
theorem Stmt.Ends.ne_normal {b : Behaviour σ ν} {t : Stmt}
    (ih : ∀ body ∈ t.bodies, Flow.closes .strict body = true →
      ∀ {s s' : σ} {e : Ending}, Flow.Ends b body s e s' → e ≠ .normal)
    (hc : t.closes .strict = true) {s s' : σ} {e : Ending} (h : t.Ends b s e s') :
    e ≠ .normal := by
  cases h with
  | leave => simp
  | «return» => simp
  | raise => simp
  | otherRaises _ => simp
  | ifRaises _ => simp
  | caseRaises _ => simp
  | block hb => exact ih _ (List.mem_singleton.mpr rfl) hc hb
  | @ifTrue condition body elseBranch _ _ _ _ _ hb =>
    cases elseBranch with
    | none => cases hc
    | some elseBody => exact ih body List.mem_cons_self (Bool.and_eq_true_iff.mp hc).1 hb
  | ifElse _ hb =>
    exact ih _ (List.mem_cons_of_mem _ (List.mem_singleton.mpr rfl))
      (Bool.and_eq_true_iff.mp hc).2 hb
  | ifOnly _ => cases hc
  | comment => cases hc
  | other _ => cases hc
  | labeled _ => cases hc
  | loop _ => cases hc
  | caseNone _ => cases hc
  | caseFrom _ _ => cases hc

/-- A body that closes in strict mode does not complete normally. -/
theorem ne_normal_of_closes_strict {b : Behaviour σ ν} (body : List Stmt) :
    closes .strict body = true → ∀ {s s' : σ} {e : Ending}, Ends b body s e s' → e ≠ .normal := by
  induction body using body_induction with
  | nil =>
    intro hc
    cases hc
  | cons t rest iht ih =>
    intro hc s s' e h
    rw [closes] at hc
    cases h with
    | stop _ hne => exact hne
    | next ht hrest =>
      split at hc
      · exact absurd rfl (ht.ne_normal iht hc)
      · exact ih hc hrest

/-- **Strict closure is sound, whatever the texts do**: a body that closes in strict mode ends in a
break, a return or a raise, if it ends at all. -/
theorem ends_abruptly_of_closes_strict {body : List Stmt} (hc : closes .strict body = true)
    (b : Behaviour σ ν) {s s' : σ} {e : Ending} (h : Ends b body s e s') :
    (∃ label, e = .leave label) ∨ (∃ value, e = .return value) ∨ ∃ value, e = .raise value := by
  cases e with
  | normal => exact absurd rfl (ne_normal_of_closes_strict body hc h)
  | leave label => exact Or.inl ⟨label, rfl⟩
  | «return» value => exact Or.inr (Or.inl ⟨value, rfl⟩)
  | raise value => exact Or.inr (Or.inr ⟨value, rfl⟩)

/-! ## Bounded runs -/

/-- What the texts do in the runs of a meaning: always one thing, and they never raise. -/
def Meaning.behaviour (m : Meaning σ ν) : Behaviour σ ν where
  effect text s r s' := r = .ok () ∧ s' = m.effect text s
  test condition s r s' := r = .ok (m.test condition s).1 ∧ s' = (m.test condition s).2
  value text s r s' := r = .ok (m.value text s).1 ∧ s' = (m.value text s).2
  hit text v s r s' := r = .ok (m.hit text v s).1 ∧ s' = (m.hit text v s).2

section

variable {m : Meaning σ ν} {n : Nat}

theorem Outcome.ending_caught (o : Outcome σ) (e : Ending) :
    (o.caught e).ending = o.ending.caught e := by
  unfold Outcome.caught Ending.caught
  split <;> rfl

theorem Outcome.world_caught (o : Outcome σ) (e : Ending) : (o.caught e).world = o.world := by
  unfold Outcome.caught
  split <;> rfl

theorem hitsAny_behaviour (v : ν) : ∀ (texts : List String) (w : World σ),
    m.behaviour.HitsAny v texts w.state (.ok (m.hitsAny v texts w).1) (m.hitsAny v texts w).2.state
  | [], w => .none
  | text :: rest, w => by
    rw [Meaning.hitsAny]
    by_cases hh : (m.hit text v w.state).1 = true
    · simp only [hh, if_true]
      exact .hit ⟨by rw [hh], rfl⟩
    · simp only [hh, Bool.false_eq_true, if_false]
      refine .miss ⟨by rw [Bool.eq_false_iff.mpr hh], rfl⟩ ?_
      exact hitsAny_behaviour v rest ⟨_, _⟩

theorem firstHit_behaviour (v : ν) : ∀ (groups : List (List CaseLabel)) (w : World σ),
    m.behaviour.FirstHit v groups w.state (.ok (m.firstHit v groups w).1)
      (m.firstHit v groups w).2.state
  | [], w => .none
  | labels :: rest, w => by
    have hany := hitsAny_behaviour (m := m) v (values labels) w
    rcases hh : m.hitsAny v (values labels) w with ⟨_ | _, w'⟩ <;> rw [hh] at hany
    · rw [firstHit_of_miss hh]
      exact .miss hany (firstHit_behaviour v rest w')
    · rw [firstHit_of_hit hh]
      exact .hit hany

theorem selects_behaviour (text : String) (groups : List (List CaseLabel)) (w : World σ) :
    m.behaviour.Selects text groups w.state (.ok (m.select text groups w).1)
      (m.select text groups w).2.state := by
  have hvalue : m.behaviour.value text w.state (.ok (m.evaluate text w).1)
      (m.evaluate text w).2.state := ⟨rfl, rfl⟩
  have h := Behaviour.Selects.group hvalue
    (firstHit_behaviour (m.evaluate text w).1 groups (m.evaluate text w).2)
  have hsel : m.select text groups w =
      m.entry (m.evaluate text w).1 groups (m.evaluate text w).2 := rfl
  rw [hsel, Meaning.entry]
  rcases hf : m.firstHit (m.evaluate text w).1 groups (m.evaluate text w).2 with ⟨_ | i, w'⟩ <;>
    rw [hf] at h <;> exact h

theorem roundsEnd_of_loop {condition : String} {body : List Stmt}
    (hb : ∀ {w : World σ} {o : Outcome σ}, runAll m .falling n body w = some o →
      Ends m.behaviour body w.state o.ending o.world.state) :
    ∀ {k : Nat} {w : World σ} {o : Outcome σ},
      m.loop condition (runAll m .falling n body) k w = some o →
      RoundsEnd m.behaviour condition body w.state o.ending o.world.state
  | k + 1, w, o, h => by
    rw [Meaning.loop] at h
    have htest : m.behaviour.test condition w.state (.ok (m.decide condition w).1)
        (m.decide condition w).2.state := ⟨rfl, rfl⟩
    rcases hd : m.decide condition w with ⟨_ | _, w'⟩ <;> rw [hd] at h htest
    · cases h
      exact .done htest
    · obtain ⟨o₁, hrun, h⟩ := Option.bind_eq_some_iff.mp h
      rcases Outcome.andThen_eq_some.mp h with ⟨hn, o₂, hl, rfl⟩ | ⟨hn, rfl⟩
      · have hlater := roundsEnd_of_loop hb hl
        exact .next htest (hn ▸ hb hrun) hlater
      · exact .stop htest (hb hrun) hn

theorem groupsEnd_of_runFrom {branches : List (Branch Stmt)}
    (hb : ∀ g ∈ branches, ∀ {w : World σ} {o : Outcome σ}, runAll m .falling n g.body w = some o →
      Ends m.behaviour g.body w.state o.ending o.world.state) {i : Nat} {w : World σ}
    {o : Outcome σ} (h : runFrom m .falling n branches i w = some o) :
    GroupsEnd m.behaviour (branches.drop i) w.state o.ending o.world.state := by
  induction branches generalizing i w o with
  | nil =>
    cases h
    rw [List.drop_nil]
    exact .nil
  | cons g rest ih =>
    have later := fun {i : Nat} {w : World σ} {o : Outcome σ} =>
      ih (fun g' hg' => hb g' (List.mem_cons_of_mem g hg')) (i := i) (w := w) (o := o)
    cases i with
    | succ i => exact later h
    | zero =>
      obtain ⟨o₁, hrun, ⟨hn, o₂, hl, rfl⟩ | ⟨hn, rfl⟩⟩ := runFrom_falling_cons.mp h
      · exact .next (hn ▸ hb g List.mem_cons_self hrun) (later hl)
      · exact .stop (hb g List.mem_cons_self hrun) hn

/-- One statement ends as its run does, if this is so of the bodies inside it. -/
theorem Stmt.ends_of_run {t : Stmt}
    (ih : ∀ body ∈ t.bodies, ∀ {w : World σ} {o : Outcome σ}, runAll m .falling n body w = some o →
      Flow.Ends m.behaviour body w.state o.ending o.world.state)
    {w : World σ} {o : Outcome σ} (h : t.run m .falling n w = some o) :
    t.Ends m.behaviour w.state o.ending o.world.state := by
  cases t with
  | comment text => cases h; exact .comment
  | other text => cases h; exact .other ⟨rfl, rfl⟩
  | leave label => cases h; exact .leave
  | «return» value => cases h; exact .return
  | raise value => cases h; exact .raise
  | block body => exact .block (ih body (List.mem_singleton.mpr rfl) h)
  | labeled label body =>
    obtain ⟨o₁, hb, rfl⟩ := Option.map_eq_some_iff.mp h
    rw [Outcome.ending_caught, Outcome.world_caught]
    exact .labeled (ih body (List.mem_singleton.mpr rfl) hb)
  | ifThen condition thenBranch elseBranch =>
    rw [Stmt.run] at h
    have htest : m.behaviour.test condition w.state (.ok (m.decide condition w).1)
        (m.decide condition w).2.state := ⟨rfl, rfl⟩
    rcases hd : m.decide condition w with ⟨_ | _, w'⟩ <;> rw [hd] at h htest
    · cases elseBranch with
      | none =>
        cases h
        exact .ifOnly htest
      | some elseBody =>
        exact .ifElse htest (ih elseBody (List.mem_cons_of_mem _ (List.mem_singleton.mpr rfl)) h)
    · exact .ifTrue htest (ih thenBranch List.mem_cons_self h)
  | loop condition body =>
    obtain ⟨o₁, hl, rfl⟩ := Option.map_eq_some_iff.mp h
    rw [Outcome.ending_caught, Outcome.world_caught]
    exact .loop (roundsEnd_of_loop (ih body (List.mem_singleton.mpr rfl)) hl)
  | case value branches =>
    rw [Stmt.run] at h
    have hsel := selects_behaviour (m := m) value (branches.map Branch.labels) w
    rcases hs : m.select value (branches.map Branch.labels) w with ⟨_ | i, w'⟩ <;> rw [hs] at h hsel
    · cases h
      exact .caseNone hsel
    · obtain ⟨o₁, hf, rfl⟩ := Option.map_eq_some_iff.mp h
      rw [Outcome.ending_caught, Outcome.world_caught]
      refine .caseFrom hsel (groupsEnd_of_runFrom (fun g hg => ih g.body ?_) hf)
      exact List.mem_map.mpr ⟨g, hg, rfl⟩

/-- **What a run comes to is a way in which the body ends.** -/
theorem ends_of_run (body : List Stmt) : ∀ {w : World σ} {o : Outcome σ},
    runAll m .falling n body w = some o →
      Ends m.behaviour body w.state o.ending o.world.state := by
  induction body using body_induction with
  | nil =>
    intro w o h
    cases h
    exact .nil
  | cons t rest iht ih =>
    intro w o h
    obtain ⟨o₁, hrun, h⟩ := runAll_cons.mp h
    have ht := Stmt.ends_of_run iht hrun
    rcases Outcome.andThen_eq_some.mp h with ⟨hn, o₂, hr, rfl⟩ | ⟨hn, rfl⟩
    · have hrest := ih hr
      exact .next (hn ▸ ht) hrest
    · exact .stop ht hn

end

/-- A loop and a switch that falls through, and behind them an `if` that returns or breaks. -/
def closingBody : List Stmt :=
  [.loop "c" [.other "z", .ifThen "x" [.leave none] none],
    .case "v" [⟨[.value "1"], false, [.other "a"]⟩, ⟨[.otherwise], false, [.leave none]⟩],
    .ifThen "y" [.other "b", .return none] (some [.block [.leave (some "l")], .comment "# end"])]

theorem ends_abruptly_of_closes_strict_counting : closes .strict closingBody = true ∧
    ∃ e s', Ends counting.behaviour closingBody 0 e s' ∧
      ((∃ label, e = .leave label) ∨ (∃ value, e = .return value) ∨ ∃ value, e = .raise value) := by
  have hc : closes .strict closingBody = true := rfl
  obtain ⟨o, hrun⟩ : ∃ o, runAll counting .falling 3 closingBody ⟨0, []⟩ = some o := ⟨_, rfl⟩
  have h := ends_of_run closingBody hrun
  exact ⟨hc, _, _, h, ends_abruptly_of_closes_strict hc counting.behaviour h⟩

end Rubify.Flow
