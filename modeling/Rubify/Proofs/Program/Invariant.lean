import Rubify.Proofs.Program.Forest
import Rubify.Proofs.Program.Steps

/-!
# What holds of every built graph

`Step.has_cases` says what a step does to the modules: it makes one, or it adds to one something that
its origin allows, and nothing else ever changes. From this each part of the invariant `Sound` is
proved for one step, and `sound_run` for a run:

* every module is `Made` as its origin says: the kind and the owner it was made with, nothing in it
  that the origin does not allow, static members numbered in order;
* a module stands in the list of its owner, or among those without one, and behind its owner;
* a class that is no longer open and has fields has a constructor;
* the body of an enum constant is a subclass of the enum, and begins with the constructor that hands
  its arguments on.

Headline:
* **`sound_run`**: a run keeps the invariant.
-/

namespace Rubify.Program

open Grammar (Dialect)
open Syntax

/-! ## The contents of a module -/

/-- The module has this in it. -/
def Module.Has (m : Module) : Addition → Prop
  | .field f => f ∈ m.fields
  | .staticField f => f ∈ m.staticFields
  | .constant c => c ∈ m.constants
  | .block b => b ∈ m.staticBlocks
  | .method method => method ∈ m.methods
  | .constructor c => c ∈ m.constructors

/-- The place of a static field among the static fields. -/
def StaticMember.fieldIndex? : StaticMember → Option Nat
  | .field index => some index
  | _ => none

/-- The place of a constant among the constants. -/
def StaticMember.constantIndex? : StaticMember → Option Nat
  | .constant index => some index
  | _ => none

/-- The place of a static block among the static blocks. -/
def StaticMember.blockIndex? : StaticMember → Option Nat
  | .block index => some index
  | _ => none

/-- The static members of each sort are numbered `0, 1, …`, in order. -/
structure Module.InOrder (m : Module) : Prop where
  fields : m.staticOrder.filterMap StaticMember.fieldIndex? = List.range m.staticFields.length
  constants : m.staticOrder.filterMap StaticMember.constantIndex? = List.range m.constants.length
  blocks : m.staticOrder.filterMap StaticMember.blockIndex? = List.range m.staticBlocks.length

namespace Module

variable {m : Module} {a b : Addition}

theorem has_add (h : (m.add a).Has b) : m.Has b ∨ b = a := by
  cases a <;> cases b <;>
    simp_all [Has, add, addField, addStaticField, addConstant, addStaticBlock, addMethod,
      addConstructor]

theorem InOrder.add (h : m.InOrder) (a : Addition) : (m.add a).InOrder := by
  obtain ⟨hf, hc, hb⟩ := h
  cases a <;> constructor <;>
    simp [Module.add, addField, addStaticField, addConstant, addStaticBlock, addMethod,
      addConstructor, StaticMember.fieldIndex?, StaticMember.constantIndex?,
      StaticMember.blockIndex?, hf, hc, hb, List.range_succ]

@[simp]
theorem kind_add (m : Module) (a : Addition) : (m.add a).kind = m.kind := by
  cases a <;> rfl

@[simp]
theorem name_add (m : Module) (a : Addition) : (m.add a).name = m.name := by
  cases a <;> rfl

@[simp]
theorem owner_add (m : Module) (a : Addition) : (m.add a).owner = m.owner := by
  cases a <;> rfl

@[simp]
theorem superclass_add (m : Module) (a : Addition) : (m.add a).superclass = m.superclass := by
  cases a <;> rfl

@[simp]
theorem rubyName_add (m : Module) (a : Addition) : (m.add a).rubyName = m.rubyName := by
  simp [rubyName]

/-- Constructors are added behind those that are there. -/
theorem head?_constructors_add {c : Constructor} (h : m.constructors.head? = some c)
    (a : Addition) : (m.add a).constructors.head? = some c := by
  cases a with
  | constructor c' => simp [add, addConstructor, List.head?_append, h]
  | _ => exact h

/-- Finishing a class adds a constructor or nothing. -/
theorem ensureConstructor_eq (m : Module) : m.ensureConstructor = m ∨
    m.ensureConstructor = m.add (.constructor (.ofInvocation [] .none)) := by
  unfold ensureConstructor
  split
  · exact .inl rfl
  · exact .inr rfl

theorem owner_ensureConstructor (m : Module) : m.ensureConstructor.owner = m.owner := by
  rcases m.ensureConstructor_eq with h | h
  · rw [h]
  · rw [h, owner_add]

theorem constructors_ensureConstructor (hi : m.isInterface = false)
    (hf : m.ensureConstructor.fields ≠ []) : m.ensureConstructor.constructors ≠ [] := by
  unfold ensureConstructor at hf ⊢
  split
  · rename_i h
    simp only [hi, Bool.false_or, Bool.or_eq_true, Bool.not_eq_true', List.isEmpty_iff] at h
    rw [if_pos (by simpa [hi] using h)] at hf
    rcases h with h | h
    · exact fun hnil => by simp [hnil] at h
    · exact absurd h hf
  · simp [addConstructor]

end Module

/-! ## What a step does to the modules -/

/-- The module `k` of a graph that is being built, and what it is made for. -/
structure Build.Has (s : Build) (k : ModuleId) (o : Origin) (m : Module) : Prop where
  origin : s.origins[k]? = some o
  module : s.graph.get? k = some m

/-- Every open type is what the origins say, and a body stands directly in a type. -/
def Stacked (origins : List Origin) : List Frame → Prop
  | [] => True
  | .type id o :: fs => origins[id]? = some o ∧ Stacked origins fs
  | .body _ _ :: fs => (∃ id, ownerOf fs = ⟨some id, none⟩) ∧ Stacked origins fs

/-- There is an origin for each module, and the stack agrees with them. -/
structure Build.Coherent (s : Build) : Prop where
  length : s.origins.length = s.graph.size
  stacked : Stacked s.origins s.stack

/-- A module as it is when it is made. -/
inductive Opened (d : Dialect) (s : Build) : Origin → Module → Prop
  | type (cx : Context) (decl : DeclKind) (static : Bool) (m : Module)
      (hcx : cx.owner = ownerOf s.stack) (hkind : m.kind = cx.kindOf decl static)
      (howner : m.owner = cx.owner) (hempty : m.IsEmpty) :
      Opened d s (.type decl cx.method.isSome) m
  | constantBody {enum : ModuleId} {o : Origin} {fs : List Frame} (name : String)
      (body : TypeBody Member) (hs : s.stack = .type enum o :: fs) (ho : o.isEnum = true) :
      Opened d s .constantBody (Program.constantBody d s.graph enum name body)

/-- What happens to a module that is there: nothing, or something is added. -/
def Changes (o : Origin) (m m' : Module) : Prop :=
  m' = m ∨ ∃ a, o.Allows a ∧ m' = m.add a

theorem stacked_listed {origins : List Origin} {id : ModuleId} {fs : List Frame}
    (h : Stacked origins fs) : Stacked origins (listed id fs) := by
  unfold listed
  split
  · exact h
  · exact h

theorem stacked_append {origins more : List Origin} : ∀ {fs : List Frame}, Stacked origins fs →
    Stacked (origins ++ more) fs
  | [], _ => trivial
  | .type id o :: fs, h => by
    have hid : id < origins.length := (List.getElem?_eq_some_iff.mp h.1).1
    exact ⟨by rw [List.getElem?_append_left hid]; exact h.1, stacked_append h.2⟩
  | .body _ _ :: fs, h => ⟨h.1, stacked_append h.2⟩

/-- The module `k` is being declared. -/
def Open (fs : List Frame) (k : ModuleId) : Prop :=
  ∃ o, Frame.type k o ∈ fs

@[simp]
theorem open_type {id k : ModuleId} {o : Origin} {fs : List Frame} :
    Open (.type id o :: fs) k ↔ k = id ∨ Open fs k := by
  unfold Open
  constructor
  · rintro ⟨o', ho'⟩
    rcases List.mem_cons.mp ho' with h | h
    · cases h
      exact .inl rfl
    · exact .inr ⟨o', h⟩
  · rintro (rfl | ⟨o', h⟩)
    · exact ⟨o, List.mem_cons_self⟩
    · exact ⟨o', List.mem_cons_of_mem _ h⟩

@[simp]
theorem open_body {k : ModuleId} {method : MethodOwner} {classes : List ModuleId}
    {fs : List Frame} : Open (.body method classes :: fs) k ↔ Open fs k := by
  simp [Open]

@[simp]
theorem open_listed {id k : ModuleId} {fs : List Frame} : Open (listed id fs) k ↔ Open fs k := by
  unfold listed
  split
  · simp
  · rfl

theorem origin_of_open {origins : List Origin} {k : ModuleId} : ∀ {fs : List Frame},
    Stacked origins fs → Open fs k → ∃ o, origins[k]? = some o
  | [], _, h => by
    obtain ⟨o, ho⟩ := h
    cases ho
  | .type id o :: fs, hs, h => by
    rcases open_type.mp h with rfl | h
    · exact ⟨o, hs.1⟩
    · exact origin_of_open hs.2 h
  | .body _ _ :: fs, hs, h => origin_of_open hs.2 (open_body.mp h)

/-- What is declared now is owned by a module that is being declared. -/
theorem open_of_ownerOf {id : ModuleId} : ∀ {fs : List Frame}, (ownerOf fs).module = some id →
    Open fs id
  | .type _ o :: _, hid => by
    cases hid
    exact ⟨o, List.mem_cons_self⟩
  | .body _ _ :: fs, hid => by
    have hfs : (ownerOf fs).module = some id := hid
    exact open_body.mpr (open_of_ownerOf hfs)

theorem changes_finish {o : Origin} (ho : o.isInterface = false) (m : Module) :
    Changes o m m.ensureConstructor := by
  rcases m.ensureConstructor_eq with h | h
  · exact .inl h
  · exact .inr ⟨.constructor _, ⟨ho, rfl, variadicLast_nil⟩, h⟩

section

variable {d : Dialect} {s s' : Build} {k : ModuleId} {o : Origin} {m : Module}

theorem Build.Has.lt (h : s.Has k o m) : k < s.graph.size :=
  Graph.lt_of_get? h.module

/-- Where nothing was made, changing a module changes one entry. -/
theorem has_modify {g : Graph} {os : List Origin} {fs fs' : List Frame} {id : ModuleId}
    {f : Module → Module} {o' : Origin} (hid : os[id]? = some o') (hf : ∀ m, Changes o' m (f m))
    (h : Build.Has ⟨g.modify id f, os, fs'⟩ k o m) :
    ∃ m₀, Build.Has ⟨g, os, fs⟩ k o m₀ ∧ Changes o m₀ m := by
  obtain ⟨ho, hm⟩ := h
  simp only at ho
  rw [Graph.get?_modify, Option.map_eq_some_iff] at hm
  obtain ⟨m₀, hm₀, rfl⟩ := hm
  refine ⟨m₀, ⟨ho, hm₀⟩, ?_⟩
  by_cases hk : k = id
  · subst hk
    rw [if_pos rfl]
    rw [ho] at hid
    cases hid
    exact hf m₀
  · rw [if_neg hk]
    exact .inl rfl

/-- A new module stands at the end, the others are as they were. -/
theorem has_alloc {g : Graph} {os : List Origin} {fs fs' : List Frame} {new : Module} {o' : Origin}
    (hlen : os.length = g.size) (h : Build.Has ⟨(g.alloc new).2, os ++ [o'], fs'⟩ k o m) :
    (k = g.size ∧ o = o' ∧ m = new) ∨ Build.Has ⟨g, os, fs⟩ k o m := by
  obtain ⟨ho, hm⟩ := h
  simp only at ho
  rw [Graph.get?_alloc] at hm
  by_cases hk : k = g.size
  · subst hk
    rw [if_pos rfl] at hm
    rw [← hlen, List.getElem?_concat_length] at ho
    cases hm
    cases ho
    exact .inl ⟨rfl, rfl, rfl⟩
  · rw [if_neg hk] at hm
    have hlt := Graph.lt_of_get? hm
    rw [List.getElem?_append_left (hlen ▸ hlt)] at ho
    exact .inr ⟨ho, hm⟩

/-- **Everything a step does to the modules.** -/
theorem Step.has_cases (h : Step d s s') (hs : s.Coherent) (hm : s'.Has k o m) :
    (k = s.graph.size ∧ Opened d s o m) ∨ ∃ m₀, s.Has k o m₀ ∧ Changes o m₀ m := by
  obtain ⟨hlen, hstack⟩ := hs
  cases h with
  | openType cx decl static new hcx hkind howner hempty =>
    rcases has_alloc hlen hm with ⟨rfl, rfl, rfl⟩ | hm
    · exact .inl ⟨rfl, .type cx decl static m hcx hkind howner hempty⟩
    · exact .inr ⟨m, hm, .inl rfl⟩
  | openConstant name body ho =>
    rcases has_alloc hlen hm with ⟨rfl, rfl, rfl⟩ | hm
    · exact .inl ⟨rfl, .constantBody name body rfl ho⟩
    · exact .inr ⟨m, hm, .inl rfl⟩
  | openBody method => exact .inr ⟨m, ⟨hm.1, hm.2⟩, .inl rfl⟩
  | add a ha hl => exact .inr (has_modify hstack.1 (fun m => .inr ⟨a, ha, rfl⟩) hm)
  | closeBody a ha => exact .inr (has_modify hstack.2.1 (fun m => .inr ⟨a, ha, rfl⟩) hm)
  | refer c houter =>
    obtain ⟨o', ho'⟩ := origin_of_open hstack.2 (open_of_ownerOf houter)
    exact .inr (has_modify ho' (fun m => .inr ⟨.constant c, trivial, rfl⟩) hm)
  | closeType ho hc => exact .inr (has_modify hstack.1 (changes_finish ho) hm)
  | closeInterface ho => exact .inr ⟨m, ⟨hm.1, hm.2⟩, .inl rfl⟩
  | closeConstant => exact .inr ⟨m, ⟨hm.1, hm.2⟩, .inl rfl⟩

theorem Step.coherent (h : Step d s s') (hs : s.Coherent) : s'.Coherent := by
  obtain ⟨hlen, hstack⟩ := hs
  cases h with
  | openType cx decl static new hcx hkind howner hempty =>
    refine ⟨by simpa using hlen, ?_, stacked_append hstack⟩
    rw [← hlen, List.getElem?_concat_length]
  | openConstant name body ho =>
    refine ⟨by simpa using hlen, ?_, stacked_append hstack⟩
    rw [← hlen, List.getElem?_concat_length]
  | openBody method => exact ⟨hlen, ⟨_, rfl⟩, hstack⟩
  | add a ha hl => exact ⟨by simpa using hlen, hstack⟩
  | closeBody a ha => exact ⟨by simpa using hlen, hstack.2⟩
  | refer c houter => exact ⟨by simpa using hlen, hstack⟩
  | closeType ho hc => exact ⟨by simpa using hlen, stacked_listed hstack.2⟩
  | closeInterface ho => exact ⟨hlen, stacked_listed hstack.2⟩
  | closeConstant => exact ⟨hlen, hstack.2⟩

theorem Step.origins_prefix (h : Step d s s') : s.origins <+: s'.origins := by
  cases h with
  | openType => exact List.prefix_append _ _
  | openConstant => exact List.prefix_append _ _
  | _ => exact List.prefix_rfl

theorem Step.origin (h : Step d s s') (ho : s.origins[k]? = some o) : s'.origins[k]? = some o := by
  obtain ⟨more, heq⟩ := h.origins_prefix
  rw [← heq, List.getElem?_append_left (List.getElem?_eq_some_iff.mp ho).1]
  exact ho

/-- Modules that are there stay. -/
theorem Step.has_of_has (h : Step d s s') (hs : s.Coherent) (hm : s.Has k o m) :
    ∃ m', s'.Has k o m' ∧ Changes o m m' := by
  have ho' := h.origin hm.origin
  have hk : k < s'.graph.size := by
    rw [← (h.coherent hs).length]
    exact (List.getElem?_eq_some_iff.mp ho').1
  cases hm' : s'.graph.get? k with
  | none => exact absurd (Graph.get?_eq_none_iff.mp hm') (Nat.not_le.mpr hk)
  | some m' =>
    have has : s'.Has k o m' := ⟨ho', hm'⟩
    rcases h.has_cases hs has with ⟨rfl, -⟩ | ⟨m₀, hm₀, hc⟩
    · exact absurd hm.lt (Nat.lt_irrefl _)
    · cases hm₀.module.symm.trans hm.module
      exact ⟨m', has, hc⟩

theorem Build.Coherent.exists_has (hs : s.Coherent) (hk : k < s.graph.size) :
    ∃ o m, s.Has k o m := by
  have ho : k < s.origins.length := hs.length ▸ hk
  exact ⟨s.origins[k], s.graph.modules[k], List.getElem?_eq_getElem ho,
    Array.getElem?_eq_getElem hk⟩

theorem Changes.head {m' : Module} (h : Changes o m m') :
    m'.kind = m.kind ∧ m'.owner = m.owner ∧ m'.superclass = m.superclass ∧
      m'.rubyName = m.rubyName := by
  rcases h with rfl | ⟨a, -, rfl⟩ <;> simp

/-- The constant path of a module stays the same. -/
theorem Step.path_eq (h : Step d s s') (hs : s.Coherent) (hk : k < s.graph.size) :
    s'.graph.path k = s.graph.path k := by
  apply Graph.path_congr
  intro j hj
  obtain ⟨o, m, hm⟩ := hs.exists_has (Nat.lt_of_le_of_lt hj hk)
  obtain ⟨m', hm', hc⟩ := h.has_of_has hs hm
  obtain ⟨-, howner, -, hname⟩ := hc.head
  simp [hm.module, hm'.module, howner, hname]

end

/-! ## The invariant -/

/-- A module is as its origin says. -/
structure Made (o : Origin) (m : Module) : Prop where
  /-- A declared type has the kind that the place of its declaration asks for. -/
  declared : ∀ decl inBody, o = .type decl inBody → ∃ cx : Context, ∃ static,
    m.owner = cx.owner ∧ m.kind = cx.kindOf decl static ∧ inBody = cx.method.isSome ∧
      (inBody = true → cx.module.isSome = true)
  allowed : ∀ a, m.Has a → o.Allows a
  inOrder : m.InOrder

/-- The body of an enum constant is a subclass of an enum that is there, and its first constructor
hands all arguments on. -/
structure ConstantBody (d : Dialect) (s : Build) (m : Module) (enum : ModuleId) : Prop where
  kind : m.kind = .innerClass
  owner : m.owner = ⟨some enum, none⟩
  isEnum : ∃ o, s.origins[enum]? = some o ∧ o.isEnum = true
  superclass : m.superclass = some (s.graph.javaType enum)
  constructor : m.constructors.head? = some (.ofInvocation [⟨"args", .array .object, true⟩]
    (.super (argumentsText d ["*args"] true)))

/-- What holds after every number of steps. -/
structure Sound (d : Dialect) (s : Build) : Prop where
  coherent : s.Coherent
  made : ∀ k o m, s.Has k o m → Made o m
  linked : s.graph.Linked
  complete : ∀ k o m, s.Has k o m → ¬ Open s.stack k → o.isInterface = false → m.fields ≠ [] →
    m.constructors ≠ []
  constantBody : ∀ k m, s.Has k .constantBody m → ∃ enum, ConstantBody d s m enum

theorem Sound.owned {d : Dialect} {s : Build} (h : Sound d s) : s.graph.Owned :=
  h.linked.owned

section

variable {d : Dialect} {s s' : Build} {k : ModuleId} {o : Origin} {m m' : Module}

theorem made_of_changes (h : Made o m) (hc : Changes o m m') : Made o m' := by
  obtain ⟨hkind, howner, -, -⟩ := hc.head
  rcases hc with rfl | ⟨a, ha, rfl⟩
  · exact h
  · refine ⟨?_, fun b hb => ?_, h.inOrder.add a⟩
    · rw [hkind, howner]
      exact h.declared
    · rcases Module.has_add hb with hb | rfl
      · exact h.allowed b hb
      · exact ha

theorem Module.IsEmpty.inOrder (h : m.IsEmpty) : m.InOrder := by
  obtain ⟨-, hs, hc, -, -, hb, ho⟩ := h
  constructor
  · simp [ho, hs]
  · simp [ho, hc]
  · simp [ho, hb]

theorem Module.IsEmpty.not_has (h : m.IsEmpty) (a : Addition) : ¬ m.Has a := by
  obtain ⟨hf, hs, hc, hk, hm, hb, -⟩ := h
  cases a <;> simp [Module.Has, *]

/-- A method stands in a module. -/
theorem isSome_module_of_stacked {origins : List Origin} : ∀ {fs : List Frame},
    Stacked origins fs → (ownerOf fs).method.isSome = true → (ownerOf fs).module.isSome = true
  | .body _ _ :: fs, h, _ => by
    obtain ⟨⟨id, hid⟩, -⟩ := h
    simp [ownerOf, hid]

theorem made_opened (hs : s.Coherent) (h : Opened d s o m) : Made o m := by
  cases h with
  | type cx decl static m hcx hkind howner hempty =>
    refine ⟨?_, fun a ha => (hempty.not_has a ha).elim, hempty.inOrder⟩
    intro decl' inBody heq
    cases heq
    refine ⟨cx, static, howner, hkind, rfl, fun hmethod => ?_⟩
    have hmodule := isSome_module_of_stacked hs.stacked
    rw [← hcx] at hmodule
    exact hmodule hmethod
  | constantBody name body hstack ho =>
    refine ⟨nofun, fun a ha => ?_, ⟨rfl, rfl, rfl⟩⟩
    cases a with
    | constructor c =>
      simp only [Module.Has, Program.constantBody, List.mem_singleton] at ha
      subst ha
      exact ⟨rfl, rfl, by simp [Constructor.ofInvocation], by simp [Constructor.ofInvocation]⟩
    | _ => simp [Module.Has, Program.constantBody] at ha

theorem Step.made (h : Step d s s') (hs : Sound d s) (hm : s'.Has k o m) : Made o m := by
  rcases h.has_cases hs.coherent hm with ⟨-, hopened⟩ | ⟨m₀, hm₀, hc⟩
  · exact made_opened hs.coherent hopened
  · exact made_of_changes (hs.made k o m₀ hm₀) hc

/-- A new module belongs to one that is there. -/
theorem lt_of_opened (hs : s.Coherent) (h : Opened d s o m) {owner : ModuleId}
    (ho : m.owner.module = some owner) : owner < s.graph.size := by
  rw [← hs.length]
  suffices ∃ o', s.origins[owner]? = some o' by
    obtain ⟨o', ho'⟩ := this
    exact (List.getElem?_eq_some_iff.mp ho').1
  cases h with
  | type cx decl static m hcx hkind howner hempty =>
    rw [howner, hcx] at ho
    exact origin_of_open hs.stacked (open_of_ownerOf ho)
  | constantBody name body hstack henum =>
    cases ho
    have hst := hs.stacked
    rw [hstack] at hst
    exact ⟨_, hst.1⟩

/-- A step makes a module whose owner is there, or changes one that keeps its owner, or neither. -/
theorem Step.linked (h : Step d s s') (hs : Sound d s) : s'.graph.Linked := by
  have made {o : Origin} {m : Module} (hm : Opened d s o m) : (s.graph.alloc m).2.Linked :=
    hs.linked.alloc fun _ ho => lt_of_opened hs.coherent hm ho
  cases h with
  | openType cx decl static m hcx hkind howner hempty =>
    exact made (.type cx decl static m hcx hkind howner hempty)
  | openConstant name body ho => exact made (.constantBody name body rfl ho)
  | openBody | closeInterface | closeConstant => exact hs.linked
  | add a | closeBody a => exact hs.linked.modify fun m => m.owner_add a
  | refer c => exact hs.linked.modify fun m => m.owner_add (.constant c)
  | closeType => exact hs.linked.modify Module.owner_ensureConstructor

/-- Changing an open module leaves those that are not open alone. -/
theorem has_of_modify {g : Graph} {os : List Origin} {fs fs' : List Frame} {id : ModuleId}
    {f : Module → Module} (hk : k ≠ id) (h : Build.Has ⟨g.modify id f, os, fs'⟩ k o m) :
    Build.Has ⟨g, os, fs⟩ k o m := by
  obtain ⟨ho, hm⟩ := h
  refine ⟨ho, ?_⟩
  rw [Graph.get?_modify, Option.map_eq_some_iff] at hm
  obtain ⟨m₀, hm₀, rfl⟩ := hm
  rw [if_neg hk]
  exact hm₀

/-- A module that is not open was not open before and is as it was, or it has just been closed. -/
theorem Step.closed_cases (h : Step d s s') (hs : s.Coherent) (hm : s'.Has k o m)
    (hk : ¬ Open s'.stack k) :
    (s.Has k o m ∧ (¬ Open s.stack k ∨ o.isInterface = true ∨ o = .constantBody)) ∨
      ∃ m₀, s.Has k o m₀ ∧ o.isInterface = false ∧ o ≠ .constantBody ∧ m = m₀.ensureConstructor := by
  obtain ⟨hlen, hstack⟩ := hs
  cases h with
  | openType cx decl static new hcx hkind howner hempty =>
    simp only [open_type, not_or] at hk
    rcases has_alloc hlen hm with ⟨rfl, -, -⟩ | hm
    · exact absurd rfl hk.1
    · exact .inl ⟨hm, .inl hk.2⟩
  | openConstant name body ho =>
    simp only [open_type, not_or] at hk
    rcases has_alloc hlen hm with ⟨rfl, -, -⟩ | hm
    · exact absurd rfl hk.1
    · exact .inl ⟨hm, .inl (by simpa using hk.2)⟩
  | openBody method => exact .inl ⟨⟨hm.1, hm.2⟩, .inl (by simpa using hk)⟩
  | add a ha hl =>
    simp only [open_type, not_or] at hk
    exact .inl ⟨has_of_modify hk.1 hm, .inl (by simpa using hk)⟩
  | closeBody a ha =>
    simp only [open_type, not_or] at hk
    exact .inl ⟨has_of_modify hk.1 hm, .inl (by simpa using hk)⟩
  | refer c houter =>
    have hne : k ≠ _ := fun heq => hk (open_type.mpr (.inr (heq ▸ open_of_ownerOf houter)))
    exact .inl ⟨has_of_modify hne hm, .inl hk⟩
  | @closeType g os fs id o' ho hc =>
    by_cases hid : k = id
    · subst hid
      have hm' := hm.module
      rw [Graph.get?_modify, Option.map_eq_some_iff] at hm'
      obtain ⟨m₀, hm₀, rfl⟩ := hm'
      cases hstack.1.symm.trans hm.origin
      rw [if_pos rfl]
      exact .inr ⟨m₀, ⟨hm.origin, hm₀⟩, ho, hc, rfl⟩
    · exact .inl ⟨has_of_modify hid hm, .inl (by simpa [hid] using hk)⟩
  | @closeInterface g os fs id o' ho =>
    refine .inl ⟨⟨hm.1, hm.2⟩, ?_⟩
    by_cases hid : k = id
    · subst hid
      cases hstack.1.symm.trans hm.origin
      exact .inr (.inl ho)
    · exact .inl (by simpa [hid] using hk)
  | @closeConstant g os fs id enum o' =>
    refine .inl ⟨⟨hm.1, hm.2⟩, ?_⟩
    by_cases hid : k = id
    · subst hid
      cases hstack.1.symm.trans hm.origin
      exact .inr (.inr rfl)
    · exact .inl (by simpa [hid] using hk)

/-- Kinds and origins agree about interfaces. -/
theorem Made.isInterface_eq (h : Made o m) (hc : o ≠ .constantBody) :
    m.isInterface = o.isInterface := by
  cases o with
  | constantBody => exact absurd rfl hc
  | type decl inBody =>
    obtain ⟨cx, static, -, hkind, -, -⟩ := h.declared decl inBody rfl
    unfold Module.isInterface
    rw [hkind]
    cases decl with
    | enumType => rfl
    | classType | interfaceType =>
      simp only [Context.kindOf]
      split_ifs <;> rfl

theorem Step.complete (h : Step d s s') (hs : Sound d s) (hm : s'.Has k o m)
    (hk : ¬ Open s'.stack k) (ho : o.isInterface = false) (hf : m.fields ≠ []) :
    m.constructors ≠ [] := by
  rcases h.closed_cases hs.coherent hm hk with ⟨hm₀, hclosed⟩ | ⟨m₀, hm₀, -, hc, rfl⟩
  · rcases hclosed with hclosed | hi | rfl
    · exact hs.complete k o m hm₀ hclosed ho hf
    · rw [ho] at hi
      cases hi
    · obtain ⟨enum, hbody⟩ := hs.constantBody k m hm₀
      intro hnil
      have := hbody.constructor
      rw [hnil] at this
      cases this
  · have hi := (hs.made k o m₀ hm₀).isInterface_eq hc
    exact Module.constructors_ensureConstructor (hi.trans ho) hf

theorem Step.constantBody (h : Step d s s') (hs : Sound d s) (hm : s'.Has k .constantBody m) :
    ∃ enum, ConstantBody d s' m enum := by
  -- The superclass was named when the body was opened; the path of the enum is still the same.
  have htype : ∀ enum, enum < s.graph.size → s'.graph.javaType enum = s.graph.javaType enum := by
    intro enum henum
    simp only [Graph.javaType, h.path_eq hs.coherent henum]
  have hlt : ∀ {enum o'}, s.origins[enum]? = some o' → enum < s.graph.size := by
    intro enum o' ho'
    rw [← hs.coherent.length]
    exact (List.getElem?_eq_some_iff.mp ho').1
  rcases h.has_cases hs.coherent hm with ⟨-, hopened⟩ | ⟨m₀, hm₀, hc⟩
  · cases hopened with
    | @constantBody enum o' fs name body hstack ho =>
      have hst := hs.coherent.stacked
      rw [hstack] at hst
      refine ⟨enum, rfl, rfl, ⟨o', h.origin hst.1, ho⟩, ?_, rfl⟩
      rw [htype enum (hlt hst.1)]
      rfl
  · obtain ⟨enum, hkind, howner, ⟨o', ho', henum⟩, hsuper, hctor⟩ := hs.constantBody k m₀ hm₀
    obtain ⟨hkind', howner', hsuper', -⟩ := hc.head
    refine ⟨enum, hkind'.trans hkind, howner'.trans howner, ⟨o', h.origin ho', henum⟩, ?_, ?_⟩
    · rw [hsuper', hsuper, htype enum (hlt ho')]
    · rcases hc with rfl | ⟨a, -, rfl⟩
      · exact hctor
      · exact Module.head?_constructors_add hctor a

/-- **One step keeps the invariant.** -/
theorem Step.sound (h : Step d s s') (hs : Sound d s) : Sound d s' where
  coherent := h.coherent hs.coherent
  made _ _ _ hm := h.made hs hm
  linked := h.linked hs
  complete _ _ _ hm hk ho hf := h.complete hs hm hk ho hf
  constantBody _ _ hm := h.constantBody hs hm

/-- **A run keeps the invariant.** -/
theorem sound_run (h : Run d s s') (hs : Sound d s) : Sound d s' := by
  induction h with
  | refl => exact hs
  | tail _ step ih => exact step.sound ih

/-- A graph without modules. -/
theorem sound_empty {g : Graph} (hmodules : g.modules = #[]) (hlinks : g.links = .empty) :
    Sound d ⟨g, [], []⟩ := by
  have hnone : ∀ k o m, ¬ Build.Has ⟨g, [], []⟩ k o m := fun k o m h => by
    cases h.origin
  have hsize : g.size = 0 := by simp [Graph.size, hmodules]
  exact ⟨⟨hsize.symm, trivial⟩, fun k o m h => (hnone k o m h).elim,
    Graph.linked_empty hmodules hlinks, fun k o m h => (hnone k o m h).elim,
    fun k m h => (hnone k _ m h).elim⟩

end

end Rubify.Program
