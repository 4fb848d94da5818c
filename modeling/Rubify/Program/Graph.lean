import Rubify.Program.Module
import Rubify.Syntax.Decl

/-!
# The modules of a compilation unit (§3, §4.2)

Modules are numbered in the order of their declarations, an owner before what it owns. A new module is
also put at the end of a list: that of its owner, or that of the modules without one (`Links`). `path`
is the constant path of a module, from its outermost owner to itself.
-/

namespace Rubify.Program

/-! ## Lists of modules -/

/-- A list holds modules behind the one that it belongs to. -/
def Behind (owned : Array (List ModuleId)) : Prop :=
  ∀ owner child, child ∈ owned[owner]?.getD [] → owner < child ∧ child < owned.size

theorem behind_empty : Behind #[] := by
  intro owner child hchild
  simp at hchild

theorem getElem?_push_nil (owned : Array (List ModuleId)) (id : ModuleId) :
    ((owned.push [])[id]?).getD [] = owned[id]?.getD [] := by
  rw [Array.getElem?_push]
  split
  · rename_i hid
    simp [hid]
  · rfl

theorem behind_push {owned : Array (List ModuleId)} (h : Behind owned) : Behind (owned.push []) := by
  intro owner child hchild
  rw [getElem?_push_nil] at hchild
  obtain ⟨hlt, hsize⟩ := h owner child hchild
  rw [Array.size_push]
  exact ⟨hlt, Nat.lt_succ_of_lt hsize⟩

theorem getElem?_modify_append (owned : Array (List ModuleId)) (owner new id : ModuleId) :
    ((owned.modify owner (· ++ [new]))[id]?).getD [] =
      owned[id]?.getD [] ++ if owner = id ∧ id < owned.size then [new] else [] := by
  rw [Array.getElem?_modify]
  by_cases howner : owner = id
  · subst howner
    cases hlist : owned[owner]? with
    | none => simp [Nat.not_lt.mpr (Array.getElem?_eq_none_iff.mp hlist)]
    | some list => simp [(Array.getElem?_eq_some_iff.mp hlist).1]
  · simp [howner]

theorem behind_modify {owned : Array (List ModuleId)} (h : Behind owned) (owner : ModuleId) :
    Behind ((owned.modify owner (· ++ [owned.size])).push []) := by
  intro id child hchild
  rw [getElem?_push_nil, getElem?_modify_append] at hchild
  rw [Array.size_push, Array.size_modify]
  rcases List.mem_append.mp hchild with hold | hnew
  · obtain ⟨hlt, hsize⟩ := h id child hold
    exact ⟨hlt, Nat.lt_succ_of_lt hsize⟩
  · split at hnew
    · rename_i hid
      rw [List.mem_singleton.mp hnew]
      exact ⟨hid.2, Nat.lt_succ_self _⟩
    · cases hnew

/-- The modules without owner, and for each module those that it owns. -/
structure Links where
  roots : List ModuleId
  owned : Array (List ModuleId)
  behind : Behind owned

namespace Links

/-- No modules. -/
def empty : Links := ⟨[], #[], behind_empty⟩

/-- The number of modules. -/
def size (l : Links) : Nat := l.owned.size

/-- The modules that a module owns. -/
def nested (l : Links) (id : ModuleId) : List ModuleId := l.owned[id]?.getD []

theorem behind_addRoot (l : Links) : Behind (l.owned.push []) :=
  behind_push l.behind

theorem behind_addNested (l : Links) (owner : ModuleId) :
    Behind ((l.owned.modify owner (· ++ [l.owned.size])).push []) :=
  behind_modify l.behind owner

/-- One more module, at the end of the list of its owner or of the modules without one. -/
def add (l : Links) (owner : Option ModuleId) : Links :=
  match owner with
  | none => ⟨l.roots ++ [l.owned.size], l.owned.push [], behind_addRoot l⟩
  | some owner =>
    ⟨l.roots, (l.owned.modify owner (· ++ [l.owned.size])).push [], behind_addNested l owner⟩

/-- A module owned by another stands behind it. -/
theorem lt_of_mem_nested {l : Links} {id child : ModuleId} (h : child ∈ l.nested id) :
    id < child ∧ child < l.size :=
  l.behind id child h

theorem size_add (l : Links) (owner : Option ModuleId) : (l.add owner).size = l.size + 1 := by
  cases owner <;> simp [add, size]

theorem roots_add (l : Links) (owner : Option ModuleId) :
    (l.add owner).roots = l.roots ++ if owner = none then [l.size] else [] := by
  cases owner <;> simp [add, size]

theorem nested_add (l : Links) (owner : Option ModuleId) (id : ModuleId) :
    (l.add owner).nested id =
      l.nested id ++ if owner = some id ∧ id < l.size then [l.size] else [] := by
  cases owner with
  | none => simpa [add, nested] using getElem?_push_nil l.owned id
  | some owner =>
    have hnested := getElem?_modify_append l.owned owner l.owned.size id
    rw [← getElem?_push_nil] at hnested
    simpa [add, nested, size] using hnested

end Links

/-! ## Graphs -/

/-- The modules of a unit, with its package, imports and loose comments. -/
structure Graph where
  modules : Array Module := #[]
  links : Links := .empty
  package : List String := []
  imports : List Syntax.Import := []
  comments : List String := []

namespace Graph

/-- The number of modules. -/
def size (g : Graph) : Nat := g.modules.size

/-- The graph with one more module, and the module's place. -/
def alloc (g : Graph) (m : Module) : ModuleId × Graph :=
  (g.size, { g with modules := g.modules.push m, links := g.links.add m.owner.module })

/-- The module at a place. -/
def get? (g : Graph) (id : ModuleId) : Option Module := g.modules[id]?

/-- The graph with a module changed. -/
def modify (g : Graph) (id : ModuleId) (f : Module → Module) : Graph :=
  { g with modules := g.modules.modify id f }

/-- The owner of the module at a place. -/
def owner? (g : Graph) (id : ModuleId) : Option ModuleId :=
  (g.get? id).bind (·.owner.module)

/-- The modules without owner, in order. -/
def roots (g : Graph) : List ModuleId := g.links.roots

/-- The modules that `id` owns, in order. -/
def nested (g : Graph) (id : ModuleId) : List ModuleId := g.links.nested id

/-- The first module of a name. -/
def find? (g : Graph) (name : String) : Option ModuleId :=
  (List.range g.size).find? fun id => (g.get? id).any (·.name = name)

/-- The constant path of a module relative to the package. -/
def path (g : Graph) (id : ModuleId) : List String :=
  match g.get? id with
  | none => []
  | some m =>
    match m.owner.module with
    | none => [m.rubyName]
    | some owner => if owner < id then g.path owner ++ [m.rubyName] else [m.rubyName]
termination_by id

/-- The module as a type. -/
def javaType (g : Graph) (id : ModuleId) : JavaType := .named ⟨[], g.path id⟩

end Graph

end Rubify.Program
