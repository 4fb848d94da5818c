import Rubify.Proofs.Output.Splicing
import Mathlib.Data.List.Forall2
import Mathlib.Data.List.Nodup
import Mathlib.Logic.Function.Basic

/-!
# Setting up an object

A plan is run on the fields of an object, step by step. Defaults are assigned silently; an initial value
that is evaluated and a constructor that is called are events, each of which finds the fields as they are
at that moment (`Moment`). What initial values are worth and what the events do outside the fields is
open (`Runtime`).

Two facts about runs carry the result: a pass that assigns defaults leaves every field with its default
and goes unnoticed (`defaulted_run`), and a pass that gives every field its initial value or default
evaluates the initial values in the order of the fields (`provided_run`). A plan without superclass is one
such pass; with a superclass, the call stands between a pass of defaults and a pass over the fields that
have an initial value.

Headline:
* **`initPlan_initializes`**: the plan of a constructor sets up every field, with the superclass in
  front of all initial values, and its steps are written in order in front of the statements.
-/

namespace Rubify.Program

/-! ## Runs -/

/-- The values of fields by name; nothing has been assigned to a field without value. -/
abbrev Store (V : Type) := String → Option V

/-- What is seen of an object that is set up. -/
inductive InitEvent
  /-- The initial value of a field is evaluated. -/
  | evaluate (field init : String)
  /-- The constructor of the superclass is called. -/
  | super (arguments : String)
  /-- Another constructor of the class is called. -/
  | delegate (arguments : String)
  deriving DecidableEq, Repr

/-- What the texts of a plan mean. Events can look at the fields; what they change is elsewhere. -/
structure Runtime (σ V : Type) where
  /-- What a literal stands for. -/
  literal : String → V
  /-- What an initial value is worth. -/
  value : String → Store V → σ → V
  /-- What is different behind an event. -/
  effect : InitEvent → Store V → σ → σ

/-- An event, with what it finds. -/
structure Moment (σ V : Type) where
  event : InitEvent
  fields : Store V
  world : σ

/-- An object that is set up, with the events so far. -/
structure Setup (σ V : Type) where
  fields : Store V
  world : σ
  trace : List (Moment σ V) := []

section

variable {σ V : Type} (rt : Runtime σ V)

/-- The default of a field. -/
def Runtime.default (f : Field) : V :=
  rt.literal f.type.defaultValue

/-- Assigns a value to a field. -/
def Setup.assign (s : Setup σ V) (name : String) (v : V) : Setup σ V :=
  { s with fields := Function.update s.fields name (some v) }

/-- Lets an event happen. -/
def Setup.observe (s : Setup σ V) (event : InitEvent) : Setup σ V :=
  { s with
    world := rt.effect event s.fields s.world
    trace := s.trace ++ [⟨event, s.fields, s.world⟩] }

/-- Carries out one step. -/
def Setup.step (s : Setup σ V) : InitStep → Setup σ V
  | .default f => s.assign f.name (rt.default f)
  | .assign f =>
    match f.init with
    | some text =>
      (s.observe rt (.evaluate f.name text)).assign f.name (rt.value text s.fields s.world)
    | none => s.assign f.name (rt.default f)
  | .super arguments => s.observe rt (.super arguments)
  | .delegate arguments => s.observe rt (.delegate arguments)

/-- Carries out the steps of a plan. -/
def Setup.run (s : Setup σ V) (plan : List InitStep) : Setup σ V :=
  plan.foldl (Setup.step rt) s

theorem Setup.run_cons (s : Setup σ V) (step : InitStep) (plan : List InitStep) :
    s.run rt (step :: plan) = (s.step rt step).run rt plan := rfl

theorem Setup.run_append (s : Setup σ V) (plan more : List InitStep) :
    s.run rt (plan ++ more) = (s.run rt plan).run rt more :=
  List.foldl_append

end

/-! ## Passes over the fields -/

section

variable {σ V : Type} {rt : Runtime σ V} {fs : List Field}

/-- Every field has got its default, without any event. -/
structure Defaulted (rt : Runtime σ V) (fs : List Field) (s r : Setup σ V) : Prop where
  fields : ∀ f ∈ fs, r.fields f.name = some (rt.default f)
  frame : ∀ name ∉ fs.map Field.name, r.fields name = s.fields name
  trace : r.trace = s.trace

theorem defaulted_run (rt : Runtime σ V) (h : (fs.map Field.name).Nodup) (s : Setup σ V) :
    Defaulted rt fs s (s.run rt (fs.map .default)) := by
  induction fs generalizing s with
  | nil => exact ⟨List.forall_mem_nil _, fun _ _ => rfl, rfl⟩
  | cons f fs ih =>
    obtain ⟨hf, hfs⟩ := List.nodup_cons.mp h
    have hrest := ih hfs (s.assign f.name (rt.default f))
    rw [List.map_cons, Setup.run_cons]
    refine ⟨List.forall_mem_cons.mpr ⟨?_, hrest.fields⟩, fun name hname => ?_, hrest.trace⟩
    · rw [Setup.step, hrest.frame _ hf]
      exact Function.update_self ..
    · obtain ⟨hne, hname⟩ := not_or.mp (mt List.mem_cons.mpr hname)
      rw [Setup.step, hrest.frame _ hname]
      exact Function.update_of_ne hne ..

/-- The event of a field with an initial value. -/
def Field.evaluation? (f : Field) : Option InitEvent :=
  f.init.map (.evaluate f.name)

/-- The step that gives a field its initial value or default. -/
def Field.settle (f : Field) : InitStep :=
  if f.init.isSome then .assign f else .default f

section

variable {f : Field}

theorem Setup.step_settle_of_none (rt : Runtime σ V) (h : f.init = none) (s : Setup σ V) :
    s.step rt f.settle = s.assign f.name (rt.default f) := by
  rw [Field.settle, h]
  rfl

theorem Setup.step_settle_of_some (rt : Runtime σ V) {text : String} (h : f.init = some text)
    (s : Setup σ V) :
    s.step rt f.settle =
      (s.observe rt (.evaluate f.name text)).assign f.name (rt.value text s.fields s.world) := by
  rw [Field.settle, h, Option.isSome_some, if_pos rfl, Setup.step, h]

theorem Setup.fields_step_settle {name : String} (h : name ≠ f.name) (s : Setup σ V) :
    (s.step rt f.settle).fields name = s.fields name := by
  cases hinit : f.init with
  | none =>
    rw [step_settle_of_none rt hinit]
    exact Function.update_of_ne h ..
  | some text =>
    rw [step_settle_of_some rt hinit]
    exact Function.update_of_ne h ..

end

/-- Every field has got its initial value or default; the moments are those in which the initial values
were evaluated, in order. -/
structure Provided (rt : Runtime σ V) (fs : List Field) (s r : Setup σ V)
    (moments : List (Moment σ V)) : Prop where
  unset : ∀ f ∈ fs, f.init = none → r.fields f.name = some (rt.default f)
  initial : ∀ f ∈ fs, ∀ text, f.init = some text → ∃ moment ∈ moments,
    moment.event = .evaluate f.name text ∧
      r.fields f.name = some (rt.value text moment.fields moment.world)
  frame : ∀ name ∉ fs.map Field.name, r.fields name = s.fields name
  trace : r.trace = s.trace ++ moments
  events : moments.map Moment.event = fs.filterMap Field.evaluation?

theorem Provided.event_of_mem {s r : Setup σ V} {moments : List (Moment σ V)}
    (h : Provided rt fs s r moments) {moment : Moment σ V} (hmem : moment ∈ moments) :
    ∃ name text, moment.event = .evaluate name text := by
  have hevent := List.mem_map_of_mem (f := Moment.event) hmem
  rw [h.events] at hevent
  obtain ⟨f, -, hf⟩ := List.mem_filterMap.mp hevent
  obtain ⟨text, -, heq⟩ := Option.map_eq_some_iff.mp hf
  exact ⟨f.name, text, heq.symm⟩

section

variable {f : Field} {s r : Setup σ V} {moments : List (Moment σ V)}
  (h : Provided rt fs (s.step rt f.settle) r moments)

include h

theorem Provided.frame_cons {name : String} (hname : name ∉ (f :: fs).map Field.name) :
    r.fields name = s.fields name := by
  obtain ⟨hne, hname⟩ := not_or.mp (mt List.mem_cons.mpr hname)
  rw [h.frame name hname, Setup.fields_step_settle hne]

/-- A field without initial value in front. It keeps its default, because no later one has its name. -/
theorem Provided.cons_of_none (hf : f.name ∉ fs.map Field.name) (hinit : f.init = none) :
    Provided rt (f :: fs) s r moments := by
  have hstep := Setup.step_settle_of_none rt hinit s
  refine ⟨List.forall_mem_cons.mpr ⟨fun _ => ?_, h.unset⟩,
    List.forall_mem_cons.mpr ⟨fun text ht => ?_, h.initial⟩, fun _ => h.frame_cons, ?_, ?_⟩
  · rw [h.frame f.name hf, hstep]
    exact Function.update_self ..
  · rw [hinit] at ht
    cases ht
  · rw [h.trace, hstep]
    rfl
  · rw [h.events, List.filterMap_cons_none]
    rw [Field.evaluation?, hinit]
    rfl

/-- A field with an initial value in front, which is evaluated first. -/
theorem Provided.cons_of_some (hf : f.name ∉ fs.map Field.name) {text : String}
    (hinit : f.init = some text) :
    Provided rt (f :: fs) s r (⟨.evaluate f.name text, s.fields, s.world⟩ :: moments) := by
  have hstep := Setup.step_settle_of_some rt hinit s
  refine ⟨List.forall_mem_cons.mpr ⟨fun hn => ?_, h.unset⟩,
    List.forall_mem_cons.mpr ⟨fun text' ht => ?_, fun g hg text' ht => ?_⟩,
    fun _ => h.frame_cons, ?_, ?_⟩
  · rw [hinit] at hn
    cases hn
  · obtain rfl : text = text' := Option.some.inj (hinit.symm.trans ht)
    refine ⟨_, List.mem_cons_self, rfl, ?_⟩
    rw [h.frame f.name hf, hstep]
    exact Function.update_self ..
  · obtain ⟨moment, hmem, hevent⟩ := h.initial g hg text' ht
    exact ⟨moment, List.mem_cons_of_mem _ hmem, hevent⟩
  · rw [h.trace, hstep]
    exact List.append_assoc ..
  · rw [List.map_cons, h.events, List.filterMap_cons_some]
    rw [Field.evaluation?, hinit]
    rfl

end

theorem provided_run (rt : Runtime σ V) (h : (fs.map Field.name).Nodup) (s : Setup σ V) :
    ∃ moments, Provided rt fs s (s.run rt (fs.map Field.settle)) moments := by
  induction fs generalizing s with
  | nil =>
    exact ⟨[], List.forall_mem_nil _, List.forall_mem_nil _, fun _ _ => rfl,
      (List.append_nil _).symm, rfl⟩
  | cons f fs ih =>
    obtain ⟨hf, hfs⟩ := List.nodup_cons.mp h
    obtain ⟨moments, hrest⟩ := ih hfs (s.step rt f.settle)
    rw [List.map_cons, Setup.run_cons]
    cases hinit : f.init with
    | none => exact ⟨moments, hrest.cons_of_none hf hinit⟩
    | some text => exact ⟨_, hrest.cons_of_some hf hinit⟩

end

/-! ## Plans -/

/-- A field without initial value has not the name of one that has an initial value. -/
theorem name_not_mem_of_init_none {fs : List Field} (h : (fs.map Field.name).Nodup) {f : Field}
    (hf : f ∈ fs) (hinit : f.init = none) :
    f.name ∉ (fs.filter (·.init.isSome)).map Field.name := by
  intro hmem
  obtain ⟨g, hg, heq⟩ := List.mem_map.mp hmem
  obtain ⟨hg, hsome⟩ := List.mem_filter.mp hg
  obtain rfl := List.inj_on_of_nodup_map h hg hf heq
  rw [hinit] at hsome
  cases hsome

theorem filterMap_evaluation?_filter (fs : List Field) :
    (fs.filter (·.init.isSome)).filterMap Field.evaluation? = fs.filterMap Field.evaluation? := by
  rw [List.filterMap_filter]
  refine List.filterMap_congr fun f _ => ?_
  cases hinit : f.init with
  | none => simp [Field.evaluation?, hinit]
  | some text => simp

/-- The arguments that the constructor of the superclass is called with. -/
def Invocation.superArguments : Invocation → String
  | .super arguments => arguments
  | .none | .this _ => "()"

/-- The object has been set up: every field holds its initial value or default, and the superclass was
called in front of all initial values, with every field at its default. -/
structure Initialized {σ V : Type} (rt : Runtime σ V) (m : Module) (invocation : Invocation)
    (fields : Store V) (r : Setup σ V) : Prop where
  unset : ∀ f ∈ m.fields, f.init = none → r.fields f.name = some (rt.default f)
  /-- A field with an initial value holds what that was worth when it was evaluated. -/
  initial : ∀ f ∈ m.fields, ∀ text, f.init = some text → ∃ moment ∈ r.trace,
    moment.event = .evaluate f.name text ∧
      r.fields f.name = some (rt.value text moment.fields moment.world)
  /-- Nothing but the fields has been assigned. -/
  frame : ∀ name ∉ m.fields.map Field.name, r.fields name = fields name
  /-- The superclass is called once iff there is one; then every initial value is evaluated once, in
  the order of the fields. -/
  events : r.trace.map Moment.event =
    (if m.superclass.isSome then [.super invocation.superArguments] else []) ++
      m.fields.filterMap Field.evaluation?
  /-- When the superclass is called, nothing has been evaluated and all fields are at their default. -/
  super : ∀ before moment after arguments, r.trace = before ++ moment :: after →
    moment.event = .super arguments →
      before = [] ∧ ∀ f ∈ m.fields, moment.fields f.name = some (rt.default f)

section

variable {σ V : Type} {rt : Runtime σ V} {m : Module}

theorem initPlan_eq_plan {invocation : Invocation} (h : ∀ arguments, invocation ≠ .this arguments) :
    m.initPlan invocation = Module.initPlan.plan m invocation.superArguments := by
  cases invocation with
  | none | super arguments => rfl
  | this arguments => exact absurd rfl (h arguments)

theorem plan_of_isNone (h : m.superclass = none) (arguments : String) :
    Module.initPlan.plan m arguments = m.fields.map Field.settle := by
  rw [Module.initPlan.plan, h, Option.isNone_none, if_pos rfl]
  rfl

theorem plan_of_isSome {t : JavaType} (h : m.superclass = some t) (arguments : String) :
    Module.initPlan.plan m arguments = m.fields.map .default ++
      .super arguments :: (m.fields.filter (·.init.isSome)).map Field.settle := by
  have hsettle : (m.fields.filter (·.init.isSome)).map Field.settle =
      (m.fields.filter (·.init.isSome)).map .assign :=
    List.map_congr_left fun f hf => if_pos (List.mem_filter.mp hf).2
  rw [Module.initPlan.plan, h, Option.isNone_some, hsettle, List.append_assoc]
  rfl

/-- Without superclass the fields are settled in one pass. -/
theorem initialized_of_isNone (h : (m.fields.map Field.name).Nodup) (hsuper : m.superclass = none)
    (invocation : Invocation) (fields : Store V) (world : σ) :
    Initialized rt m invocation fields
      (Setup.run rt ⟨fields, world, []⟩ (Module.initPlan.plan m invocation.superArguments)) := by
  obtain ⟨moments, hpass⟩ := provided_run rt h ⟨fields, world, []⟩
  rw [plan_of_isNone hsuper]
  have htrace := hpass.trace
  rw [List.nil_append] at htrace
  refine ⟨hpass.unset, ?_, hpass.frame, ?_, fun before moment after arguments heq hevent => ?_⟩
  · rw [htrace]
    exact hpass.initial
  · rw [htrace, hpass.events, hsuper]
    rfl
  · rw [htrace] at heq
    obtain ⟨name, text, hname⟩ :=
      hpass.event_of_mem (heq ▸ List.mem_append_right before List.mem_cons_self)
    rw [hevent] at hname
    cases hname

/-- With a superclass its constructor runs between the defaults and the initial values. -/
theorem initialized_of_isSome (h : (m.fields.map Field.name).Nodup) {t : JavaType}
    (hsuper : m.superclass = some t) (invocation : Invocation) (fields : Store V) (world : σ) :
    Initialized rt m invocation fields
      (Setup.run rt ⟨fields, world, []⟩ (Module.initPlan.plan m invocation.superArguments)) := by
  rw [plan_of_isSome hsuper, Setup.run_append, Setup.run_cons, Setup.step]
  have hdefaults := defaulted_run rt h ⟨fields, world, []⟩
  generalize Setup.run rt ⟨fields, world, []⟩ (m.fields.map .default) = s at hdefaults ⊢
  have hsub : ((m.fields.filter (·.init.isSome)).map Field.name).Sublist (m.fields.map Field.name) :=
    List.filter_sublist.map _
  obtain ⟨moments, hpass⟩ := provided_run rt (h.sublist hsub)
    (s.observe rt (.super invocation.superArguments))
  have htrace : (Setup.run rt (s.observe rt (.super invocation.superArguments))
      ((m.fields.filter (·.init.isSome)).map Field.settle)).trace =
        ⟨.super invocation.superArguments, s.fields, s.world⟩ :: moments := by
    rw [hpass.trace, Setup.observe, hdefaults.trace]
    rfl
  refine ⟨fun f hf hinit => ?_, fun f hf text hinit => ?_, fun name hname => ?_, ?_,
    fun before moment after arguments heq hevent => ?_⟩
  · rw [hpass.frame f.name (name_not_mem_of_init_none h hf hinit)]
    exact hdefaults.fields f hf
  · have hmem : f ∈ m.fields.filter (·.init.isSome) := List.mem_filter.mpr ⟨hf, by rw [hinit]; rfl⟩
    obtain ⟨moment, hmoment, hvalue⟩ := hpass.initial f hmem text hinit
    rw [htrace]
    exact ⟨moment, List.mem_cons_of_mem _ hmoment, hvalue⟩
  · rw [hpass.frame name fun hmem => hname (hsub.subset hmem)]
    exact hdefaults.frame name hname
  · rw [htrace, List.map_cons, hpass.events, filterMap_evaluation?_filter, hsuper]
    rfl
  · rw [htrace] at heq
    cases before with
    | nil =>
      obtain ⟨rfl, -⟩ := List.cons.inj heq
      exact ⟨rfl, hdefaults.fields⟩
    | cons first before =>
      obtain ⟨-, rfl⟩ := List.cons.inj heq
      obtain ⟨name, text, hname⟩ := hpass.event_of_mem (List.mem_append_right before List.mem_cons_self)
      rw [hevent] at hname
      cases hname

end

/-! ## Lines -/

/-- The line that carries out a step. The text that is evaluated for a field is the one that is
assigned. -/
inductive InitStep.Writes : InitStep → String → Prop
  | default (f : Field) : Writes (.default f) ("@" ++ f.name ++ " = " ++ f.type.defaultValue)
  | assign (f : Field) (text : String) (h : f.init = some text) :
      Writes (.assign f) ("@" ++ f.name ++ " = " ++ text)
  | super (arguments : String) : Writes (.super arguments) ("super" ++ arguments)
  | delegate (arguments : String) : Writes (.delegate arguments) ("initialize" ++ arguments)

theorem writes_default (f : Field) : (InitStep.default f).Writes (InitStep.default f).line :=
  .default f

theorem writes_assign {f : Field} (h : f.init.isSome = true) :
    (InitStep.assign f).Writes (InitStep.assign f).line := by
  obtain ⟨text, htext⟩ := Option.isSome_iff_exists.mp h
  rw [InitStep.line, Field.value, htext]
  exact .assign f text htext

/-- Every step of a plan has its line; only fields with an initial value are assigned one. -/
theorem writes_line {m : Module} {invocation : Invocation} {step : InitStep}
    (h : step ∈ m.initPlan invocation) : step.Writes step.line := by
  have hplan (arguments : String) (h : step ∈ Module.initPlan.plan m arguments) :
      step.Writes step.line := by
    unfold Module.initPlan.plan at h
    split at h
    · obtain ⟨f, -, rfl⟩ := List.mem_map.mp h
      split
      · exact writes_assign ‹_›
      · exact writes_default f
    · rcases List.mem_append.mp h with h | h
      · rcases List.mem_append.mp h with h | h
        · obtain ⟨f, -, rfl⟩ := List.mem_map.mp h
          exact writes_default f
        · rw [List.mem_singleton.mp h]
          exact .super arguments
      · obtain ⟨f, hf, rfl⟩ := List.mem_map.mp h
        exact writes_assign (List.mem_filter.mp hf).2
  cases invocation with
  | none => exact hplan _ h
  | super arguments => exact hplan _ h
  | this arguments =>
    rw [List.mem_singleton.mp h]
    exact .delegate arguments

theorem forall₂_writes_line (m : Module) (invocation : Invocation) :
    List.Forall₂ InitStep.Writes (m.initPlan invocation)
      ((m.initPlan invocation).map InitStep.line) := by
  rw [List.forall₂_map_right_iff, List.forall₂_same]
  exact fun _ => writes_line

/-- **A plan sets up the object.** Where the fields have names of their own and no other constructor
is called, every field holds its initial value or default in the end, initial values are evaluated once
and in order, and the superclass is called once iff there is one, in front of all of them and with every
field at its default. A call of another constructor is all that happens otherwise. In front of the
statements stand the lines of the steps that are run, each once and in order. -/
theorem initPlan_initializes {σ V : Type} (rt : Runtime σ V) (m : Module) (c : Constructor)
    (fields : Store V) (world : σ) (o : Ruby.Options) (stmts : List Flow.Stmt) (e : Emitter) :
    ((m.fields.map Field.name).Nodup → (∀ arguments, c.invocation ≠ .this arguments) →
      Initialized rt m c.invocation fields
        (Setup.run rt ⟨fields, world, []⟩ (m.initPlan c.invocation))) ∧
    (∀ arguments, c.invocation = .this arguments →
      Setup.run rt ⟨fields, world, []⟩ (m.initPlan c.invocation) =
        ⟨fields, rt.effect (.delegate arguments) fields world,
          [⟨.delegate arguments, fields, world⟩]⟩) ∧
    ∃ lines, List.Forall₂ InitStep.Writes (m.initPlan c.invocation) lines ∧
      Layout.writeAll (Ruby.constructorBodyLayout o m c stmts) e =
        e.append (String.join (lines.map fun line => (e.fresh.line line).out) ++
          (Layout.writeAll (Ruby.bodyLayout o.comments stmts) e.fresh).out) := by
  refine ⟨fun hnames hthis => ?_, fun arguments hthis => ?_, ?_⟩
  · rw [initPlan_eq_plan hthis]
    cases hsuper : m.superclass with
    | none => exact initialized_of_isNone hnames hsuper c.invocation fields world
    | some t => exact initialized_of_isSome hnames hsuper c.invocation fields world
  · rw [hthis]
    rfl
  · refine ⟨_, forall₂_writes_line m c.invocation, ?_⟩
    have hbody := Layout.appends_writeAll (Ruby.gaplessAll_bodyLayout o.comments stmts)
    rw [Ruby.constructorBodyLayout, Layout.writeAll_append, Layout.writeAll_map_line, hbody,
      Emitter.append_append, Emitter.fresh_append, List.map_map]
    rfl

/-- A class with a superclass; one field gets the value of another. -/
def badge : Module :=
  { kind := .topClass, name := "Badge", owner := {}, superclass := some .object
    fields := [⟨"size", .primitive .int, some "7", []⟩, ⟨"worn", .primitive .boolean, none, []⟩,
      ⟨"label", .string, some "size", []⟩] }

/-- The name of a field is worth what the field holds, any other text is worth itself. -/
def copying : Runtime Nat String where
  literal text := text
  value text fields _ := (fields text).getD text
  effect _ _ count := count + 1

theorem initPlan_initializes_badge : (badge.fields.map Field.name).Nodup ∧
    Initialized copying badge (.super "(a)") (fun _ => none)
      (Setup.run copying ⟨fun _ => none, 0, []⟩ (badge.initPlan (.super "(a)"))) ∧
    (Setup.run copying ⟨fun _ => none, 0, []⟩ (badge.initPlan (.super "(a)"))).fields "label" =
      some "7" ∧
    (∃ lines, List.Forall₂ InitStep.Writes (badge.initPlan (.super "(a)")) lines) ∧
    (Layout.writeAll (Ruby.constructorBodyLayout {} badge (.ofInvocation [] (.super "(a)"))
      [.other "wear"]) {}).out =
        "@size = 0\n@worn = false\n@label = nil\nsuper(a)\n@size = 7\n@label = size\nwear\n" := by
  obtain ⟨hinit, -, lines, hlines, -⟩ := initPlan_initializes copying badge
    (.ofInvocation [] (.super "(a)")) (fun _ => none) 0 {} [.other "wear"] {}
  exact ⟨by decide, hinit (by decide) (fun _ => nofun), by decide, ⟨lines, hlines⟩,
    by decide +kernel⟩

end Rubify.Program
