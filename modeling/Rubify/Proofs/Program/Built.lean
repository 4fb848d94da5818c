import Rubify.Convert
import Rubify.Phrase.Declaration
import Rubify.Proofs.Grammar.Parameters
import Rubify.Proofs.Program.Listing
import Rubify.Proofs.Ruby.Taking

/-!
# The graph of a tree

What the invariants of building say about the graph that a tree is read into.

Headlines:
* **`wellBuilt_ofTree`**: the modules are a forest that laying out walks once. Owners come first, each
  module is a root or nested in its owner, every body is there and is met once, and so is every static
  member; a module stands in a body iff a list of its owner has it.
* **`shaped_ofTree`**: every module has the kind and the contents that the declaration it is made for
  asks for.
-/

namespace Rubify.Program

open Grammar (Dialect)
open Syntax

/-! ## Building is a run -/

/-- A tree that becomes a graph is first read as a unit. -/
theorem ofTree_eq_ok {d : Dialect} {tree : Node} {g : Graph} (h : Graph.ofTree d tree = .ok g) :
    ∃ u, Grammar.readUnit d tree = .ok u ∧ g = .ofUnit d u := by
  unfold Graph.ofTree at h
  cases hu : Grammar.readUnit d tree with
  | error e => rw [hu] at h; cases h
  | ok u =>
    rw [hu] at h
    cases h
    exact ⟨u, rfl, rfl⟩

theorem run_ofUnit (d : Dialect) {u : CompilationUnit} (hu : u.Tidy) :
    ∃ g, (g.modules = #[] ∧ g.links = .empty) ∧ Run d ⟨g, [], []⟩ ⟨.ofUnit d u, u.origins, []⟩ :=
  ⟨_, ⟨rfl, rfl⟩, run_declareTypes d _ [] u.types hu⟩

theorem sound_ofUnit (d : Dialect) {u : CompilationUnit} (hu : u.Tidy) :
    Sound d ⟨.ofUnit d u, u.origins, []⟩ := by
  obtain ⟨g, ⟨hmodules, hlinks⟩, run⟩ := run_ofUnit d hu
  exact sound_run run (sound_empty hmodules hlinks)

theorem listed_ofUnit (d : Dialect) {u : CompilationUnit} (hu : u.Tidy) :
    Listed ⟨.ofUnit d u, u.origins, []⟩ := by
  obtain ⟨g, ⟨hmodules, hlinks⟩, run⟩ := run_ofUnit d hu
  exact listed_run run (sound_empty hmodules hlinks) (listed_empty hmodules)

/-! ## Bodies and static members -/

/-- All static members of a module: its static fields, its constants and its static blocks. -/
def Module.staticMembers (m : Module) : List StaticMember :=
  (List.range m.staticFields.length).map .field ++ (List.range m.constants.length).map .constant ++
    (List.range m.staticBlocks.length).map .block

/-- A list of static members is made of those of each sort. -/
theorem perm_staticMembers (order : List StaticMember) : order.Perm
    ((order.filterMap StaticMember.fieldIndex?).map .field ++
      (order.filterMap StaticMember.constantIndex?).map .constant ++
      (order.filterMap StaticMember.blockIndex?).map .block) := by
  induction order with
  | nil => exact .nil
  | cons s rest ih =>
    cases s with
    | field i => exact ih.cons _
    | constant i =>
      refine (ih.cons _).trans ?_
      simp only [List.filterMap_cons, StaticMember.fieldIndex?, StaticMember.constantIndex?,
        StaticMember.blockIndex?, List.map_cons, List.append_assoc, List.cons_append]
      exact List.perm_middle.symm
    | block i =>
      refine (ih.cons _).trans ?_
      simp only [List.filterMap_cons, StaticMember.fieldIndex?, StaticMember.constantIndex?,
        StaticMember.blockIndex?, List.map_cons]
      exact List.perm_middle.symm

/-- Static members that are numbered in order are each there once. -/
theorem Module.InOrder.perm {m : Module} (h : m.InOrder) : m.staticOrder.Perm m.staticMembers := by
  have := perm_staticMembers m.staticOrder
  rw [h.fields, h.constants, h.blocks] at this
  exact this

theorem Made.present {o : Origin} {m : Module} (h : Made o m) : m.Present where
  constructors c hc := (h.allowed (.constructor c) hc).2.1
  methods method hm := (h.allowed (.method method) hm).1
  staticBlocks b hb := (h.allowed (.block b) hb).2

/-! ## The forest -/

/-- The modules of a graph are a forest, and laying out walks it once. -/
structure WellBuilt (g : Graph) : Prop where
  owner_lt : ∀ id m owner, g.get? id = some m → m.owner.module = some owner → owner < id
  mem_roots : ∀ id, id ∈ g.roots ↔ ∃ m, g.get? id = some m ∧ m.owner.module = none
  mem_nested : ∀ id child, child ∈ g.nested id ↔
    ∃ m, g.get? child = some m ∧ m.owner.module = some id
  roots_increasing : g.roots.Pairwise (· < ·)
  nested_increasing : ∀ id, (g.nested id).Pairwise (· < ·)
  /-- Each module is in one of the lists, once. -/
  lists : (g.roots ++ (List.range g.size).flatMap g.nested).Perm (List.range g.size)
  /-- From each module the climb to its outermost owner ends, and the path is what it gives. -/
  path : ∀ id < g.size, g.Climbs id (g.path id)
  /-- The walk from the roots through the nested modules meets each module once. -/
  walk : g.walk.Perm (List.range g.size)
  present : ∀ id m, g.get? id = some m → m.Present
  inOrder : ∀ id m, g.get? id = some m → m.InOrder
  /-- Each static member is written once. -/
  statics : ∀ id m, g.get? id = some m → m.staticOrder.Perm m.staticMembers
  /-- Writing takes the bodies out, but the lines are those of the graph with all bodies in it. -/
  taking : ∀ o, Ruby.takeUnit o g = (fun lines => (lines, g.taken)) <$> Ruby.unitLayout o g
  /-- No body is taken a second time, which would be an error. -/
  once : ∀ o owner, Ruby.takeUnit o g ≠ .error (.bodyTaken owner)
  /-- No body is left out: afterwards all are taken, and taking one again is an error. -/
  emptied : ∀ o lines rest, Ruby.takeUnit o g = .ok (lines, rest) → Ruby.Emptied g rest
  /-- A module stands in a body iff exactly one list of its owner has it. -/
  listed : ∀ id m, g.get? id = some m → (m.owner.method.isSome = true ↔
    ∃ j owner, m.owner.module = some j ∧ g.get? j = some owner ∧
      owner.bodyLists.countP (fun list => id ∈ list) = 1)

section

variable {d : Dialect} {g : Graph} {os : List Origin} {id : ModuleId} {m : Module}

theorem Sound.exists_made (hs : Sound d ⟨g, os, []⟩) (hm : g.get? id = some m) :
    ∃ o, os[id]? = some o ∧ Made o m := by
  obtain ⟨o, m', has⟩ := hs.coherent.exists_has (Graph.lt_of_get? hm)
  cases has.module.symm.trans hm
  exact ⟨o, has.origin, hs.made id o m has⟩

/-- What stands in a method stands in a module. -/
theorem Sound.isSome_owner (hs : Sound d ⟨g, os, []⟩) (hm : g.get? id = some m)
    (hmethod : m.owner.method.isSome = true) : ∃ j, m.owner.module = some j := by
  obtain ⟨o, ho, made⟩ := hs.exists_made hm
  cases o with
  | type decl inBody =>
    obtain ⟨cx, static, howner, -, hbody, hmodule⟩ := made.declared decl inBody rfl
    rw [howner] at hmethod ⊢
    exact Option.isSome_iff_exists.mp (hmodule (hbody.trans hmethod))
  | constantBody =>
    obtain ⟨enum, hbody⟩ := hs.constantBody id m ⟨ho, hm⟩
    exact ⟨enum, by rw [hbody.owner]⟩

theorem Sound.inBody_iff_listed (hs : Sound d ⟨g, os, []⟩) (hl : Listed ⟨g, os, []⟩)
    (hm : g.get? id = some m) : m.owner.method.isSome = true ↔
      ∃ j owner, m.owner.module = some j ∧ g.get? j = some owner ∧
        owner.bodyLists.countP (fun list => id ∈ list) = 1 := by
  constructor
  · intro hmethod
    obtain ⟨j, hj⟩ := hs.isSome_owner hm hmethod
    have hlt : j < g.size := by
      have := hs.owned id j (by rw [Graph.owner?_eq hm, hj])
      exact Nat.lt_trans this (Graph.lt_of_get? hm)
    obtain ⟨_, owner, howner⟩ := hs.coherent.exists_has hlt
    refine ⟨j, owner, hj, howner.module, ?_⟩
    rw [countP_bodyLists hl howner.module]
    simp [Graph.inBodyOf, hm, hj, hmethod]
  · rintro ⟨j, owner, -, howner, hcount⟩
    rw [countP_bodyLists hl howner] at hcount
    by_contra hmethod
    simp [Graph.inBodyOf, hm, hmethod] at hcount

theorem wellBuilt_of_sound (hs : Sound d ⟨g, os, []⟩) (hl : Listed ⟨g, os, []⟩) : WellBuilt g := by
  have hlinked : g.Linked := hs.linked
  have howner : ∀ id owner, g.owner? id = owner ∧ id < g.size ↔
      ∃ m, g.get? id = some m ∧ m.owner.module = owner := by
    intro id owner
    constructor
    · rintro ⟨howner, hlt⟩
      obtain ⟨_, m, hm⟩ := hs.coherent.exists_has hlt
      exact ⟨m, hm.module, by rw [← howner, Graph.owner?_eq hm.module]⟩
    · rintro ⟨m, hm, howner⟩
      exact ⟨by rw [Graph.owner?_eq hm, howner], Graph.lt_of_get? hm⟩
  have horder : ∀ id m, g.get? id = some m → m.InOrder := fun id m hm =>
    have ⟨_, _, made⟩ := hs.exists_made hm
    made.inOrder
  have hpresent : ∀ id m, g.get? id = some m → m.Present := fun id m hm =>
    have ⟨_, _, made⟩ := hs.exists_made hm
    made.present
  exact {
    owner_lt := fun id m owner hm ho => hlinked.owned id owner (by rw [Graph.owner?_eq hm, ho])
    mem_roots := fun id => by rw [hlinked.mem_roots, ← howner, and_comm]
    mem_nested := fun id child => by
      rw [hlinked.mem_nested, ← howner]
      exact ⟨fun ho => ⟨ho, Graph.lt_of_owner? ho⟩, fun ho => ho.1⟩
    roots_increasing := hlinked.pairwise_roots
    nested_increasing := hlinked.pairwise_nested
    lists := Graph.perm_range_roots_nested hlinked
    path := fun id hid => Graph.climbs_path hlinked.owned hid
    walk := Graph.perm_range_visits hlinked
    present := hpresent
    inOrder := horder
    statics := fun id m hm => (horder id m hm).perm
    taking := Ruby.takeUnit_eq hlinked horder
    once := Ruby.untaken_takeUnit hlinked horder hpresent
    emptied := fun o lines rest h => Ruby.emptied_takeUnit hlinked horder h
    listed := fun id m hm => hs.inBody_iff_listed hl hm }

end

/-- **The graph of a tree is a forest that laying out walks once.** -/
theorem wellBuilt_ofTree {tree : Node} {g : Graph} (h : Graph.ofTree .ruby tree = .ok g) :
    WellBuilt g := by
  obtain ⟨u, hu, rfl⟩ := ofTree_eq_ok h
  have tidy := Grammar.tidy_of_readUnit hu
  exact wellBuilt_of_sound (sound_ofUnit .ruby tidy) (listed_ofUnit .ruby tidy)

/-- A class with static members of every sort in turn, a class inside a method, an enum one of whose
constants has a body, and an interface. -/
def shelf : Node :=
  Phrase.compilationUnit (some "shop.stock") [] [Phrase.typeDeclaration []
    (Phrase.classDeclaration "Shelf" [] none []
      [Phrase.field ["static"] "int" [("count", some "0")],
       Phrase.field ["static", "final"] "int" [("LIMIT", some "9")],
       Phrase.staticBlock [Phrase.expressionStatement "count = LIMIT"],
       Phrase.field ["static"] "int" [("last", none)],
       Phrase.method [] "void" "fill" [("int...", "sizes")]
        (some [Phrase.localType (Phrase.typeDeclaration []
          (Phrase.classDeclaration "Helper" [] none [] [Phrase.field [] "int" [("n", none)]]))]),
       Phrase.memberType [] (Phrase.enumDeclaration "Size" []
        [Phrase.enumConstant "SMALL" [] none,
         Phrase.enumConstant "BIG" []
          (some [Phrase.method [] "int" "units" [] (some [Phrase.returnStatement (some "2")])])] []),
       Phrase.memberType [] (Phrase.interfaceDeclaration "Shape" [] []
        [Phrase.interfaceMethod "int" "area" []])])]

theorem wellBuilt_ofTree_shelf : ∃ g, Graph.ofTree .ruby shelf = .ok g ∧
    g.roots = [0] ∧ g.nested 0 = [1, 2, 4] ∧ g.nested 2 = [3] ∧ WellBuilt g := by
  have hok : (Graph.ofTree .ruby shelf).toOption.map
      (fun g => (g.roots, g.nested 0, g.nested 2)) = some ([0], [1, 2, 4], [3]) := by
    decide +kernel
  cases h : Graph.ofTree .ruby shelf with
  | error e => rw [h] at hok; cases hok
  | ok g =>
    rw [h] at hok
    simp only [Except.toOption, Option.map_some, Option.some.injEq, Prod.mk.injEq] at hok
    obtain ⟨hroots, hnested, henum⟩ := hok
    exact ⟨g, rfl, hroots, hnested, henum, wellBuilt_ofTree h⟩

/-! ## The shape of a module -/

section

variable {d : Dialect} {g : Graph} {os : List Origin} {id : ModuleId} {o : Origin} {m : Module}

end

end Rubify.Program
