import Rubify.Proofs.Program.Built
import Mathlib.Data.List.Nodup

/-!
# Modules of one path

The constant path of a module is that of its owner and its own name behind it, so two modules have one
path iff they, or owners of theirs, stand side by side under one name
(`Graph.path_injective_iff`). The name is that of the type, except for a class in a body, which carries
the name of its method, and for the body of an enum constant.

So names that are distinct within each type body and within each body of a method, constructor or
static block (`Graph.NamesDistinct`) tell apart only what is declared together, and of that only two
classes or two other types. What is left are clashes: two modules side by side whose names agree
although they are declared in different places, as in methods of one name, or as a class and an enum.

That two classes of one body carry the same method name is an invariant of building (`Housed`): what a
body lists is owned by the module and the method of the body.

Headlines:
* **`housed_run`**: a run keeps what is listed in one body under one owner.
* **`path_injective_iff_no_clash`**: in the graph of a tree with distinct names, paths are distinct iff
  there is no clash.
* **`path_overloaded`**: two methods of one name make a clash.
-/

namespace Rubify.Program

open Grammar (Dialect)
open Syntax

/-! ## Paths and names -/

namespace Graph

variable {g : Graph} {i j : ModuleId} {m n : Module}

theorem path_ne_nil (hm : g.get? i = some m) : g.path i ≠ [] := by
  rw [path, hm]
  dsimp only
  split
  · exact List.cons_ne_nil _ _
  · split <;> simp

/-- Modules of one path have one name, and their owners have one path. -/
theorem owner_of_path_eq (h : g.Owned) (hm : g.get? i = some m) (hn : g.get? j = some n)
    (hp : g.path i = g.path j) : m.rubyName = n.rubyName ∧
      ((m.owner.module = none ∧ n.owner.module = none) ∨
        ∃ k l, m.owner.module = some k ∧ n.owner.module = some l ∧ g.path k = g.path l) := by
  have hsome : ∀ {id k : ModuleId} {m : Module}, g.get? id = some m → m.owner.module = some k →
      g.path k ≠ [] := fun {id k m} hm ho => by
    have hlt : k < id := h id k (by rw [owner?_eq hm, ho])
    have hk : k < g.size := Nat.lt_trans hlt (lt_of_get? hm)
    exact path_ne_nil (Array.getElem?_eq_getElem hk)
  cases hi : m.owner.module with
  | none =>
    rw [path_of_root hm hi] at hp
    cases hj : n.owner.module with
    | none =>
      rw [path_of_root hn hj] at hp
      exact ⟨List.singleton_inj.mp hp, .inl ⟨rfl, rfl⟩⟩
    | some l =>
      rw [path_of_owner h hn hj] at hp
      have hnil := (List.append_inj' ((List.nil_append _).trans hp) rfl).1
      exact absurd hnil.symm (hsome hn hj)
  | some k =>
    rw [path_of_owner h hm hi] at hp
    cases hj : n.owner.module with
    | none =>
      rw [path_of_root hn hj] at hp
      have hnil := (List.append_inj' (hp.trans (List.nil_append _).symm) rfl).1
      exact absurd hnil (hsome hm hi)
    | some l =>
      rw [path_of_owner h hn hj] at hp
      obtain ⟨hpath, hname⟩ := List.append_inj' hp rfl
      exact ⟨List.singleton_inj.mp hname, .inr ⟨k, l, rfl, rfl, hpath⟩⟩

/-- Modules of one owner and one name have one path. -/
theorem path_eq_of_siblings (h : g.Owned) (hm : g.get? i = some m) (hn : g.get? j = some n)
    (howner : m.owner.module = n.owner.module) (hname : m.rubyName = n.rubyName) :
    g.path i = g.path j := by
  cases hi : m.owner.module with
  | none => rw [path_of_root hm hi, path_of_root hn (howner ▸ hi), hname]
  | some k => rw [path_of_owner h hm hi, path_of_owner h hn (howner ▸ hi), hname]

/-- Paths are distinct iff the modules of each owner have distinct names. -/
theorem path_injective_iff (h : g.Owned) :
    (∀ i < g.size, ∀ j < g.size, g.path i = g.path j → i = j) ↔
      ∀ i j m n, g.get? i = some m → g.get? j = some n → m.owner.module = n.owner.module →
        m.rubyName = n.rubyName → i = j := by
  constructor
  · intro hinj i j m n hm hn howner hname
    exact hinj i (lt_of_get? hm) j (lt_of_get? hn) (path_eq_of_siblings h hm hn howner hname)
  · intro hnames i
    induction i using Nat.strongRecOn with
    | ind i ih =>
      intro hi j hj hp
      have hm : g.get? i = some g.modules[i] := Array.getElem?_eq_getElem hi
      have hn : g.get? j = some g.modules[j] := Array.getElem?_eq_getElem hj
      obtain ⟨hname, ⟨hroot, hroot'⟩ | ⟨k, l, hk, hl, hpath⟩⟩ := owner_of_path_eq h hm hn hp
      · exact hnames i j _ _ hm hn (hroot.trans hroot'.symm) hname
      · have hki : k < i := h i k (by rw [owner?_eq hm, hk])
        have hlj : l < j := h j l (by rw [owner?_eq hn, hl])
        have hkl := ih k hki (Nat.lt_trans hki hi) l (Nat.lt_trans hlj hj) hpath
        exact hnames i j _ _ hm hn (by rw [hk, hl, hkl]) hname

end Graph

/-! ## What a body lists has one owner -/

/-- The module at a place is there and has this owner. -/
def Graph.OwnerIs (g : Graph) (id : ModuleId) (owner : Owner) : Prop :=
  ∃ m, g.get? id = some m ∧ m.owner = owner

/-- Every open type has the owner that the frames around it say, and so has what an open body lists. -/
def StackHoused (g : Graph) : List Frame → Prop
  | [] => True
  | .type id _ :: fs => g.OwnerIs id (ownerOf fs) ∧ StackHoused g fs
  | .body method classes :: fs =>
    (∀ c ∈ classes, g.OwnerIs c ⟨(ownerOf fs).module, some method⟩) ∧ StackHoused g fs

/-- What one list of a module names stands in the module, all in one method. -/
structure Housed (s : Build) : Prop where
  lists : ∀ k m, s.graph.get? k = some m → ∀ list ∈ m.bodyLists,
    ∃ method, ∀ c ∈ list, s.graph.OwnerIs c ⟨some k, some method⟩
  stack : StackHoused s.graph s.stack

section

variable {d : Dialect} {g g' : Graph} {os os' : List Origin} {fs fs' : List Frame} {s s' : Build}
  {id : ModuleId} {o : Origin}

theorem mem_bodyLists_add {m : Module} {a : Addition} {list : List ModuleId}
    (h : list ∈ (m.add a).bodyLists) : list ∈ m.bodyLists ∨ list = a.localClasses := by
  cases a with
  | field | staticField | constant => exact .inl h
  | block | method | constructor =>
    simp only [Module.bodyLists, Module.add, Module.addStaticBlock, Module.addMethod,
      Module.addConstructor, List.map_append, List.map_cons, List.map_nil, List.mem_append,
      List.mem_singleton, Addition.localClasses] at h ⊢
    tauto

theorem ownerIs_alloc {owner : Owner} (new : Module) (h : g.OwnerIs id owner) :
    (g.alloc new).2.OwnerIs id owner := by
  obtain ⟨m, hm, howner⟩ := h
  refine ⟨m, ?_, howner⟩
  rw [Graph.get?_alloc, if_neg (Nat.ne_of_lt (Graph.lt_of_get? hm))]
  exact hm

theorem ownerIs_modify {owner : Owner} {f : Module → Module} (hf : ∀ m, (f m).owner = m.owner)
    {k : ModuleId} (h : g.OwnerIs k owner) : (g.modify id f).OwnerIs k owner := by
  obtain ⟨m, hm, howner⟩ := h
  refine ⟨if k = id then f m else m, by rw [Graph.get?_modify, hm]; rfl, ?_⟩
  split
  · rw [hf, howner]
  · exact howner

/-- The stack stays housed where modules keep their owners. -/
theorem StackHoused.mono (hg : ∀ k owner, g.OwnerIs k owner → g'.OwnerIs k owner) :
    ∀ {fs : List Frame}, StackHoused g fs → StackHoused g' fs
  | [], _ => trivial
  | .type _ _ :: _, h => ⟨hg _ _ h.1, h.2.mono hg⟩
  | .body _ _ :: _, h => ⟨fun c hc => hg _ _ (h.1 c hc), h.2.mono hg⟩

/-- A closed type is listed where it was opened. -/
theorem StackHoused.listed (h : StackHoused g (.type id o :: fs)) :
    StackHoused g (listed id fs) := by
  obtain ⟨hid, hfs⟩ := h
  cases fs with
  | nil => trivial
  | cons f rest =>
    cases f with
    | type id' o' => exact hfs
    | body method classes =>
      refine ⟨fun c hc => ?_, hfs.2⟩
      rcases List.mem_append.mp hc with hc | hc
      · exact hfs.1 c hc
      · rw [List.mem_singleton.mp hc]
        exact hid

/-- A module is made, and lists nothing. -/
theorem Housed.alloc {new : Module} (hlists : ∀ list ∈ new.bodyLists, list = [])
    (howner : new.owner = ownerOf fs) (h : Housed ⟨g, os, fs⟩) :
    Housed ⟨(g.alloc new).2, os', .type g.size o :: fs⟩ := by
  refine ⟨fun k m hm list hlist => ?_, ⟨new, ?_, howner⟩,
    h.stack.mono fun _ _ => ownerIs_alloc new⟩
  · rw [Graph.get?_alloc] at hm
    split at hm
    · cases hm
      rw [hlists list hlist]
      exact ⟨⟨"", false⟩, fun c hc => absurd hc List.not_mem_nil⟩
    · obtain ⟨method, hall⟩ := h.lists k m hm list hlist
      exact ⟨method, fun c hc => ownerIs_alloc new (hall c hc)⟩
  · rw [Graph.get?_alloc, if_pos rfl]

/-- A module is changed; what it lists anew stands in one of its methods. -/
theorem Housed.modify {f : Module → Module} (hf : ∀ m, (f m).owner = m.owner)
    (hlists : ∀ m, ∀ list ∈ (f m).bodyLists, list ∈ m.bodyLists ∨
      ∃ method, ∀ c ∈ list, g.OwnerIs c ⟨some id, some method⟩)
    (hstack : StackHoused g fs') (h : Housed ⟨g, os, fs⟩) : Housed ⟨g.modify id f, os', fs'⟩ := by
  refine ⟨fun k m hm list hlist => ?_, hstack.mono fun _ _ => ownerIs_modify hf⟩
  obtain ⟨m₀, hm₀, rfl⟩ := Option.map_eq_some_iff.mp ((Graph.get?_modify g id f k).symm.trans hm)
  have hhouse : ∃ method, ∀ c ∈ list, g.OwnerIs c ⟨some k, some method⟩ := by
    by_cases hk : k = id
    · rw [if_pos hk] at hlist
      rcases hlists m₀ list hlist with hlist | hnew
      · exact h.lists k m₀ hm₀ list hlist
      · rw [hk]
        exact hnew
    · rw [if_neg hk] at hlist
      exact h.lists k m₀ hm₀ list hlist
  obtain ⟨method, hall⟩ := hhouse
  exact ⟨method, fun c hc => ownerIs_modify hf (hall c hc)⟩

/-- **One step keeps what is listed in one body under one owner.** -/
theorem Step.housed (h : Step d s s') (hs : Housed s) : Housed s' := by
  have hnil : ∀ {g : Graph} {id : ModuleId}, ∃ method, ∀ c ∈ ([] : List ModuleId),
      g.OwnerIs c ⟨some id, some method⟩ :=
    ⟨⟨"", false⟩, fun c hc => absurd hc List.not_mem_nil⟩
  cases h with
  | openType cx decl static new hcx hkind howner hempty =>
    refine hs.alloc (fun list hlist => ?_) (howner.trans hcx)
    rw [hempty.bodyLists] at hlist
    cases hlist
  | openConstant name body ho =>
    refine hs.alloc (fun list hlist => ?_) rfl
    exact List.mem_singleton.mp hlist
  | openBody method =>
    exact ⟨hs.lists, fun c hc => absurd hc List.not_mem_nil, hs.stack⟩
  | add a ha hl =>
    refine hs.modify (fun m => m.owner_add a) (fun m list hlist => ?_) hs.stack
    rcases mem_bodyLists_add hlist with hlist | rfl
    · exact .inl hlist
    · rw [hl]
      exact .inr hnil
  | @closeBody g os fs id o method a ha =>
    refine hs.modify (fun m => m.owner_add a) (fun m list hlist => ?_) hs.stack.2
    rcases mem_bodyLists_add hlist with hlist | rfl
    · exact .inl hlist
    · exact .inr ⟨method, hs.stack.1⟩
  | refer c houter =>
    exact hs.modify (fun m => rfl) (fun m list hlist => .inl hlist) hs.stack
  | closeType ho hc =>
    refine hs.modify Module.owner_ensureConstructor (fun m list hlist => ?_) hs.stack.listed
    rcases m.ensureConstructor_eq with heq | heq
    · rw [heq] at hlist
      exact .inl hlist
    · rw [heq] at hlist
      rcases mem_bodyLists_add hlist with hlist | rfl
      · exact .inl hlist
      · exact .inr hnil
  | closeInterface ho => exact ⟨hs.lists, hs.stack.listed⟩
  | closeConstant => exact ⟨hs.lists, hs.stack.2⟩

/-- **A run keeps what is listed in one body under one owner.** -/
theorem housed_run (h : Run d s s') (hs : Housed s) : Housed s' := by
  induction h with
  | refl => exact hs
  | tail _ step ih => exact step.housed ih

theorem housed_empty (hmodules : g.modules = #[]) : Housed ⟨g, [], []⟩ := by
  refine ⟨fun k m hm => ?_, trivial⟩
  simp [Graph.get?, hmodules] at hm

theorem housed_ofUnit (d : Dialect) {u : CompilationUnit} (hu : u.Tidy) :
    Housed ⟨.ofUnit d u, u.origins, []⟩ := by
  obtain ⟨g, ⟨hmodules, -⟩, run⟩ := run_ofUnit d hu
  exact housed_run run (housed_empty hmodules)

end

/-! ## Names within one body -/

namespace Graph

/-- The types declared directly in the body of the module `k`. -/
def memberTypes (g : Graph) (k : ModuleId) : List ModuleId :=
  (g.nested k).filter fun c =>
    (g.get? c).any fun m => m.owner.method.isNone && m.kind != .innerClass

/-- The types declared in each body of the module `k`: its own, and those of its constructors, methods
and static blocks. -/
def scopes (g : Graph) (k : ModuleId) : List (List ModuleId) :=
  g.memberTypes k :: ((g.get? k).map Module.bodyLists).getD []

/-- The capitalised name of the type at a place. -/
def typeName? (g : Graph) (c : ModuleId) : Option String :=
  (g.get? c).map fun m => Text.capitalize m.name

/-- Types declared in one body have distinct capitalised names. -/
def NamesDistinct (g : Graph) : Prop :=
  ∀ k < g.size, ∀ list ∈ g.scopes k, (list.map g.typeName?).Nodup

instance (g : Graph) : Decidable g.NamesDistinct :=
  inferInstanceAs (Decidable (∀ k < g.size, ∀ list ∈ g.scopes k, (list.map g.typeName?).Nodup))

/-- Two modules are declared in one body. -/
def Together (g : Graph) (i j : ModuleId) : Prop :=
  ∃ k < g.size, ∃ list ∈ g.scopes k, i ∈ list ∧ j ∈ list

/-- Two modules stand side by side under one name, and it is not that they are two classes, or two
other types, declared in one body. -/
structure Clash (g : Graph) (i j : ModuleId) (m n : Module) : Prop where
  left : g.get? i = some m
  right : g.get? j = some n
  ne : i ≠ j
  owner : m.owner.module = n.owner.module
  name : m.rubyName = n.rubyName
  apart : g.Together i j → ¬ (m.kind = .innerClass ↔ n.kind = .innerClass)

end Graph

/-- Outside bodies, and for enums and interfaces, the name is that of the type. -/
theorem Module.rubyName_of_ne {m : Module} (h : m.kind ≠ .innerClass) :
    m.rubyName = Text.capitalize m.name := by
  unfold rubyName
  split <;> simp_all

theorem Module.rubyName_of_method {m : Module} {method : MethodOwner} (h : m.kind = .innerClass)
    (hmethod : m.owner.method = some method) :
    m.rubyName = Text.capitalize m.name ++ "_" ++ method.name := by
  simp [rubyName, h, hmethod]

section

variable {g : Graph} {os : List Origin} {i j k : ModuleId} {m n : Module} {list : List ModuleId}

/-- Two classes, or two other types, of one body are named alike only if their types are. -/
theorem Housed.name_eq (hh : Housed ⟨g, os, []⟩) (hlist : list ∈ g.scopes k) (hi : i ∈ list)
    (hj : j ∈ list) (hm : g.get? i = some m) (hn : g.get? j = some n)
    (hsort : m.kind = .innerClass ↔ n.kind = .innerClass) (hname : m.rubyName = n.rubyName) :
    Text.capitalize m.name = Text.capitalize n.name := by
  by_cases hinner : m.kind = .innerClass
  · rcases List.mem_cons.mp hlist with rfl | hlist
    · -- member types are not inner classes
      have hmember := (List.mem_filter.mp hi).2
      simp [hm, hinner] at hmember
    · cases ho : g.get? k with
      | none => rw [ho] at hlist; cases hlist
      | some owner =>
        rw [ho] at hlist
        obtain ⟨method, hall⟩ := hh.lists k owner ho list hlist
        obtain ⟨m', hm', hmowner⟩ := hall i hi
        obtain ⟨n', hn', hnowner⟩ := hall j hj
        cases hm.symm.trans hm'
        cases hn.symm.trans hn'
        rw [Module.rubyName_of_method hinner (congrArg Owner.method hmowner),
          Module.rubyName_of_method (hsort.mp hinner) (congrArg Owner.method hnowner)] at hname
        simpa using hname
  · rwa [Module.rubyName_of_ne hinner, Module.rubyName_of_ne fun h => hinner (hsort.mpr h)] at hname

/-- Distinct names of types make distinct names of modules, unless there is a clash. -/
theorem Housed.eq_of_names (hh : Housed ⟨g, os, []⟩) (hd : g.NamesDistinct)
    (hclash : ∀ i j m n, ¬ g.Clash i j m n) (hm : g.get? i = some m) (hn : g.get? j = some n)
    (howner : m.owner.module = n.owner.module) (hname : m.rubyName = n.rubyName) : i = j := by
  by_contra hne
  refine hclash i j m n ⟨hm, hn, hne, howner, hname, fun htogether hsort => ?_⟩
  obtain ⟨k, hk, list, hlist, hi, hj⟩ := htogether
  have htype := hh.name_eq hlist hi hj hm hn hsort hname
  refine hne (List.inj_on_of_nodup_map (hd k hk list hlist) hi hj ?_)
  simp only [Graph.typeName?, hm, hn, Option.map_some, htype]

end

/-- **Paths are distinct iff there is no clash**, in the graph of a tree in which the types declared in
one body have distinct capitalised names. -/
theorem path_injective_iff_no_clash {tree : Node} {g : Graph} (h : Graph.ofTree .ruby tree = .ok g)
    (hd : g.NamesDistinct) :
    (∀ i < g.size, ∀ j < g.size, g.path i = g.path j → i = j) ↔
      ∀ i j m n, ¬ g.Clash i j m n := by
  obtain ⟨u, hu, rfl⟩ := ofTree_eq_ok h
  have tidy := Grammar.tidy_of_readUnit hu
  rw [Graph.path_injective_iff (sound_ofUnit .ruby tidy).owned]
  constructor
  · intro hnames i j m n hclash
    exact hclash.ne (hnames i j m n hclash.left hclash.right hclash.owner hclash.name)
  · intro hclash i j m n hm hn howner hname
    exact (housed_ofUnit .ruby tidy).eq_of_names hd hclash hm hn howner hname

/-- A class of the same name as a member, as a class in two methods of different names, and next to an
enum in one of them; and an enum one of whose constants has a body. -/
def workers : Node :=
  Phrase.compilationUnit none [] [Phrase.typeDeclaration [] (Phrase.classDeclaration "Crew" [] none []
    [Phrase.memberType [] (Phrase.classDeclaration "Helper" [] none [] []),
     Phrase.method [] "void" "start" [] (some
      [Phrase.localType (Phrase.typeDeclaration [] (Phrase.classDeclaration "Helper" [] none [] [])),
       Phrase.localType (Phrase.typeDeclaration [] (Phrase.enumDeclaration "Mode" [] [] []))]),
     Phrase.method [] "void" "stop" [] (some
      [Phrase.localType (Phrase.typeDeclaration [] (Phrase.classDeclaration "Helper" [] none [] []))]),
     Phrase.memberType [] (Phrase.enumDeclaration "Size" []
      [Phrase.enumConstant "BIG" [] (some [])] [])])]

theorem path_injective_iff_no_clash_workers : ∃ g, Graph.ofTree .ruby workers = .ok g ∧
    g.NamesDistinct ∧ (List.range g.size).map g.path = [["Crew"], ["Crew", "Helper"],
      ["Crew", "Helper_start"], ["Crew", "Mode"], ["Crew", "Helper_stop"], ["Crew", "Size"],
      ["Crew", "Size", "BIG_Body"]] ∧ ∀ i j m n, ¬ g.Clash i j m n := by
  have hpaths : (Graph.ofTree .ruby workers).toOption.map (fun g => (decide g.NamesDistinct,
      (List.range g.size).map g.path,
      decide (∀ i < g.size, ∀ j < g.size, g.path i = g.path j → i = j))) =
      some (true, [["Crew"], ["Crew", "Helper"], ["Crew", "Helper_start"], ["Crew", "Mode"],
        ["Crew", "Helper_stop"], ["Crew", "Size"], ["Crew", "Size", "BIG_Body"]], true) := by
    decide +kernel
  cases h : Graph.ofTree .ruby workers with
  | error e => rw [h] at hpaths; cases hpaths
  | ok g =>
    rw [h] at hpaths
    simp only [Except.toOption, Option.map_some, Option.some.injEq, Prod.mk.injEq,
      decide_eq_true_eq] at hpaths
    obtain ⟨hdistinct, hall, hinjective⟩ := hpaths
    exact ⟨g, rfl, hdistinct, hall, (path_injective_iff_no_clash h hdistinct).mp hinjective⟩

/-- A class with two methods of one name, each with a class of one name in its body. -/
def overloaded : Node :=
  Phrase.compilationUnit none [] [Phrase.typeDeclaration [] (Phrase.classDeclaration "A" [] none []
    [Phrase.method [] "void" "run" [] (some
      [Phrase.localType (Phrase.typeDeclaration [] (Phrase.classDeclaration "Helper" [] none [] []))]),
     Phrase.method [] "void" "run" [("int", "n")] (some
      [Phrase.localType
        (Phrase.typeDeclaration [] (Phrase.classDeclaration "Helper" [] none [] []))])])]

/-- The classes in two methods of one name are defined under one path, though every body has one type
only. -/
theorem path_overloaded : ∃ g, Graph.ofTree .ruby overloaded = .ok g ∧ g.NamesDistinct ∧
    g.size = 3 ∧ g.path 1 = ["A", "Helper_run"] ∧ g.path 2 = ["A", "Helper_run"] := by
  have hpaths : (Graph.ofTree .ruby overloaded).toOption.map
      (fun g => (decide g.NamesDistinct, g.size, g.path 1, g.path 2)) =
      some (true, 3, ["A", "Helper_run"], ["A", "Helper_run"]) := by
    decide +kernel
  cases h : Graph.ofTree .ruby overloaded with
  | error e => rw [h] at hpaths; cases hpaths
  | ok g =>
    rw [h] at hpaths
    simp only [Except.toOption, Option.map_some, Option.some.injEq, Prod.mk.injEq,
      decide_eq_true_eq] at hpaths
    exact ⟨g, rfl, hpaths⟩

end Rubify.Program
