import Rubify.Program.Graph
import Mathlib.Data.List.Basic

/-!
# Graphs whose owners come first

A new module is put at the end of one list. What this keeps is `Linked`: a module is among the roots iff
it has no owner, and in the list of another iff that is its owner, and the lists are in order. Then every
module stands behind its owner (`Linked.owned`), and the owners make a forest: climbing from a module to
its owner and on ends at a root (`climbs_path`), and the walk from the roots through the nested modules
meets each module once.

Headlines:
* **`Linked.alloc`**: making a module keeps the lists right.
* **`perm_range_visits`**: what the walk from the roots visits is `0, 1, …`, each number once.
-/

namespace Rubify.Program.Graph

variable {g : Graph} {m : Module} {id k : ModuleId}

/-! ## Places -/

theorem get?_eq_none_iff : g.get? id = none ↔ g.size ≤ id := by
  simp [get?, size]

theorem lt_of_get? (h : g.get? id = some m) : id < g.size := by
  by_contra hle
  rw [get?_eq_none_iff.mpr (Nat.le_of_not_lt hle)] at h
  cases h

@[simp]
theorem size_alloc (g : Graph) (m : Module) : (g.alloc m).2.size = g.size + 1 := by
  simp [alloc, size]

@[simp]
theorem size_modify (g : Graph) (id : ModuleId) (f : Module → Module) :
    (g.modify id f).size = g.size := by
  simp [modify, size]

theorem get?_alloc (g : Graph) (m : Module) (k : ModuleId) :
    (g.alloc m).2.get? k = if k = g.size then some m else g.get? k :=
  Array.getElem?_push

theorem get?_modify (g : Graph) (id : ModuleId) (f : Module → Module) (k : ModuleId) :
    (g.modify id f).get? k = (g.get? k).map fun m => if k = id then f m else m := by
  simp only [modify, get?, Array.getElem?_modify]
  by_cases h : k = id
  · subst h
    simp
  · simp [h, Ne.symm h]

theorem owner?_eq (h : g.get? id = some m) : g.owner? id = m.owner.module := by
  simp [owner?, h]

theorem lt_of_owner? {owner : ModuleId} (h : g.owner? id = some owner) : id < g.size := by
  unfold owner? at h
  cases hm : g.get? id with
  | none => rw [hm] at h; cases h
  | some m => exact lt_of_get? hm

/-! ## Roots and nested modules -/

/-- Every module stands behind its owner. -/
def Owned (g : Graph) : Prop :=
  ∀ id owner, g.owner? id = some owner → owner < id

/-- The lists say what the owners say. -/
structure Linked (g : Graph) : Prop where
  size : g.links.size = g.size
  mem_roots : ∀ id, id ∈ g.roots ↔ id < g.size ∧ g.owner? id = none
  mem_nested : ∀ id child, child ∈ g.nested id ↔ g.owner? child = some id
  pairwise_roots : g.roots.Pairwise (· < ·)
  pairwise_nested : ∀ id, (g.nested id).Pairwise (· < ·)

theorem Linked.owned (h : g.Linked) : g.Owned := fun id owner howner =>
  (Links.lt_of_mem_nested ((h.mem_nested owner id).mpr howner)).1

theorem Linked.nodup_roots (h : g.Linked) : g.roots.Nodup :=
  h.pairwise_roots.imp Nat.ne_of_lt

theorem Linked.nodup_nested (h : g.Linked) (id : ModuleId) : (g.nested id).Nodup :=
  (h.pairwise_nested id).imp Nat.ne_of_lt

theorem count_flatMap_nested (h : g.Linked) {j : ModuleId} (hk : g.owner? k = some j)
    (ids : List ModuleId) : (ids.flatMap g.nested).count k = ids.count j := by
  induction ids with
  | nil => rfl
  | cons i rest ih =>
    have hi : (g.nested i).count k = if i = j then 1 else 0 := by
      rw [List.Nodup.count (h.nodup_nested i)]
      simp only [h.mem_nested, hk, Option.some.injEq, eq_comm]
    rw [List.flatMap_cons, List.count_append, ih, hi, List.count_cons]
    simp only [beq_iff_eq]
    omega

/-- Each module is in one of the lists, once. -/
theorem perm_range_roots_nested (h : g.Linked) :
    (g.roots ++ (List.range g.size).flatMap g.nested).Perm (List.range g.size) := by
  rw [List.perm_iff_count]
  intro k
  rw [List.count_append, List.Nodup.count h.nodup_roots, List.Nodup.count List.nodup_range]
  simp only [h.mem_roots, List.mem_range]
  cases hk : g.owner? k with
  | none =>
    have hzero : ((List.range g.size).flatMap g.nested).count k = 0 := by
      rw [List.count_eq_zero, List.mem_flatMap]
      rintro ⟨i, -, hi⟩
      rw [h.mem_nested, hk] at hi
      cases hi
    simp [hzero]
  | some j =>
    have hlt := lt_of_owner? hk
    have hj : j < g.size := Nat.lt_trans (h.owned k j hk) hlt
    rw [count_flatMap_nested h hk, List.Nodup.count List.nodup_range]
    simp [hj, hlt]

/-! ## How the lists grow -/

theorem owner?_alloc (g : Graph) (m : Module) (k : ModuleId) :
    (g.alloc m).2.owner? k = if k = g.size then m.owner.module else g.owner? k := by
  rw [owner?, owner?, get?_alloc]
  split <;> rfl

theorem owner?_modify {f : Module → Module} (hf : ∀ m, (f m).owner = m.owner) (k : ModuleId) :
    (g.modify id f).owner? k = g.owner? k := by
  rw [owner?, owner?, get?_modify]
  cases g.get? k with
  | none => rfl
  | some m =>
    by_cases hk : k = id
    · simp [hk, hf]
    · simp [hk]

/-- A new module stands at the end of the roots, if it has no owner. -/
theorem roots_alloc (g : Graph) (m : Module) : (g.alloc m).2.roots =
    g.roots ++ if m.owner.module = none then [g.links.size] else [] :=
  g.links.roots_add m.owner.module

/-- A new module stands at the end of the list of its owner. -/
theorem nested_alloc (g : Graph) (m : Module) (id : ModuleId) : (g.alloc m).2.nested id =
    g.nested id ++ if m.owner.module = some id ∧ id < g.links.size then [g.links.size] else [] :=
  g.links.nested_add m.owner.module id

/-- The graph without modules. -/
theorem linked_empty (hmodules : g.modules = #[]) (hlinks : g.links = .empty) : g.Linked where
  size := by simp [size, hmodules, hlinks, Links.size, Links.empty]
  mem_roots id := by simp [roots, size, hmodules, hlinks, Links.empty]
  mem_nested id child := by
    simp [nested, owner?, get?, hmodules, hlinks, Links.nested, Links.empty]
  pairwise_roots := by simp [roots, hlinks, Links.empty]
  pairwise_nested id := by simp [nested, hlinks, Links.nested, Links.empty]

/-- A list in order stays so when a module that is behind all others is put at its end. -/
theorem pairwise_append_size {ids : List ModuleId} {n : Nat} (h : ids.Pairwise (· < ·))
    (hlt : ∀ id ∈ ids, id < n) (p : Prop) [Decidable p] :
    (ids ++ if p then [n] else []).Pairwise (· < ·) := by
  split
  · exact List.pairwise_append.mpr ⟨h, List.pairwise_singleton _ _, by simpa using hlt⟩
  · rwa [List.append_nil]

/-- **Making a module keeps the lists right**, if its owner is there. -/
theorem Linked.alloc (h : g.Linked) (howner : ∀ owner, m.owner.module = some owner → owner < g.size) :
    (g.alloc m).2.Linked where
  size := by
    have hlinks : (g.alloc m).2.links.size = g.links.size + 1 := g.links.size_add m.owner.module
    rw [hlinks, size_alloc, h.size]
  mem_roots id := by
    rw [roots_alloc, List.mem_append, h.mem_roots, owner?_alloc, size_alloc, h.size]
    by_cases hid : id = g.size
    · subst hid
      by_cases hm : m.owner.module = none <;> simp [hm]
    · have hnew : id ∉ if m.owner.module = none then [g.size] else [] := by
        split <;> simp [hid]
      simp only [hid, hnew, or_false, if_false]
      exact and_congr_left fun _ =>
        ⟨Nat.lt_succ_of_lt, fun hlt => Nat.lt_of_le_of_ne (Nat.le_of_lt_succ hlt) hid⟩
  mem_nested id child := by
    rw [nested_alloc, List.mem_append, h.mem_nested, owner?_alloc, h.size]
    by_cases hchild : child = g.size
    · subst hchild
      have hold : g.owner? g.size ≠ some id := fun ho => Nat.lt_irrefl _ (lt_of_owner? ho)
      simp only [hold, false_or, if_true]
      constructor
      · intro hmem
        split at hmem
        · rename_i hid
          exact hid.1
        · cases hmem
      · intro hm
        rw [if_pos ⟨hm, howner id hm⟩]
        exact List.mem_singleton.mpr rfl
    · have hnew : child ∉ if m.owner.module = some id ∧ id < g.size then [g.size] else [] := by
        split <;> simp [hchild]
      simp only [hchild, hnew, or_false, if_false]
  pairwise_roots := by
    rw [roots_alloc, h.size]
    exact pairwise_append_size h.pairwise_roots (fun id hid => ((h.mem_roots id).mp hid).1) _
  pairwise_nested id := by
    rw [nested_alloc, h.size]
    exact pairwise_append_size (h.pairwise_nested id)
      (fun child hchild => h.size ▸ (Links.lt_of_mem_nested hchild).2) _

/-- Changing a module leaves the lists right, if it keeps its owner. -/
theorem Linked.modify (h : g.Linked) {f : Module → Module} (hf : ∀ m, (f m).owner = m.owner) :
    (g.modify id f).Linked where
  size := h.size.trans (size_modify g id f).symm
  mem_roots k := by
    rw [owner?_modify hf, size_modify]
    exact h.mem_roots k
  mem_nested k child := by
    rw [owner?_modify hf]
    exact h.mem_nested k child
  pairwise_roots := h.pairwise_roots
  pairwise_nested := h.pairwise_nested

/-! ## Climbing -/

/-- Climbing from a module to its owner, and on until there is none, gives these names, the last one
first. -/
inductive Climbs (g : Graph) : ModuleId → List String → Prop
  | root {id : ModuleId} {m : Module} (hm : g.get? id = some m) (ho : m.owner.module = none) :
      Climbs g id [m.rubyName]
  | step {id owner : ModuleId} {m : Module} {names : List String} (hm : g.get? id = some m)
      (ho : m.owner.module = some owner) (h : Climbs g owner names) :
      Climbs g id (names ++ [m.rubyName])

theorem path_of_root (hm : g.get? id = some m) (ho : m.owner.module = none) :
    g.path id = [m.rubyName] := by
  rw [path, hm]
  simp [ho]

theorem path_of_owner {owner : ModuleId} (h : g.Owned) (hm : g.get? id = some m)
    (ho : m.owner.module = some owner) : g.path id = g.path owner ++ [m.rubyName] := by
  have hlt : owner < id := h id owner (by rw [owner?_eq hm, ho])
  rw [path, hm]
  simp [ho, hlt]

/-- From every module the climb ends, and the path of the module is what it gives. -/
theorem climbs_path (h : g.Owned) {id : ModuleId} (hid : id < g.size) :
    Climbs g id (g.path id) := by
  induction id using Nat.strongRecOn with
  | ind id ih =>
    cases hm : g.get? id with
    | none => exact absurd (get?_eq_none_iff.mp hm) (Nat.not_le.mpr hid)
    | some m =>
      cases ho : m.owner.module with
      | none =>
        rw [path_of_root hm ho]
        exact .root hm ho
      | some owner =>
        have hlt : owner < id := h id owner (by rw [owner?_eq hm, ho])
        rw [path_of_owner h hm ho]
        exact .step hm ho (ih owner hlt (Nat.lt_trans hlt hid))

/-- A path looks at the names and owners of a module and of the modules in front of it, and at
nothing else. -/
theorem path_congr {g' : Graph} {id : ModuleId}
    (h : ∀ k ≤ id, (g'.get? k).map (fun m => (m.rubyName, m.owner.module)) =
      (g.get? k).map fun m => (m.rubyName, m.owner.module)) : g'.path id = g.path id := by
  induction id using Nat.strongRecOn with
  | ind id ih =>
    have hid := h id (Nat.le_refl id)
    rw [path, path]
    cases hm : g.get? id with
    | none =>
      rw [hm, Option.map_none, Option.map_eq_none_iff] at hid
      simp only [hid]
    | some m =>
      rw [hm, Option.map_some, Option.map_eq_some_iff] at hid
      obtain ⟨m', hm', heq⟩ := hid
      obtain ⟨hname, howner⟩ := Prod.mk.inj heq
      simp only [hm', hname, howner]
      cases m.owner.module with
      | none => rfl
      | some owner =>
        by_cases hlt : owner < id
        · have hpath := ih owner hlt fun k hk => h k (Nat.le_trans hk (Nat.le_of_lt hlt))
          simp only [if_pos hlt, hpath]
        · simp only [if_neg hlt]

/-! ## The walk through the nested modules -/

/-- The modules met from `id` on: itself, and then those met from each module nested in it. -/
def visits (g : Graph) (id : ModuleId) : List ModuleId :=
  id :: (g.nested id).attach.flatMap fun ⟨child, h⟩ =>
    have := Links.lt_of_mem_nested h
    g.visits child
termination_by g.links.size - id
decreasing_by simp only [ModuleId] at *; omega

theorem visits_eq (g : Graph) (id : ModuleId) :
    g.visits id = id :: (g.nested id).flatMap g.visits := by
  rw [visits, List.flatMap_subtype (g := g.visits) fun child h => rfl, List.unattach_attach]

theorem count_flatMap_visits {j : ModuleId} (ids : List ModuleId)
    (h : ∀ i ∈ ids, (g.visits i).count k = (g.visits i).count j + if i = k then 1 else 0) :
    (ids.flatMap g.visits).count k = (ids.flatMap g.visits).count j + ids.count k := by
  induction ids with
  | nil => rfl
  | cons i rest ih =>
    have hi := h i List.mem_cons_self
    have hrest := ih fun i' hi' => h i' (List.mem_cons_of_mem i hi')
    rw [List.flatMap_cons, List.count_append, List.count_append, List.count_cons, hi, hrest]
    simp only [beq_iff_eq]
    omega

/-- **Step down.** From wherever the walk begins, it meets a module as often as its owner, and once
more if it begins there. -/
theorem count_visits_of_owner (h : g.Linked) {j : ModuleId} (hk : g.owner? k = some j)
    (id : ModuleId) :
    (g.visits id).count k = (g.visits id).count j + if id = k then 1 else 0 := by
  have hinside : ∀ c ∈ g.nested id,
      (g.visits c).count k = (g.visits c).count j + if c = k then 1 else 0 := fun c hc =>
    have := Links.lt_of_mem_nested hc
    count_visits_of_owner h hk c
  have hnested : (g.nested id).count k = if id = j then 1 else 0 := by
    rw [List.Nodup.count (h.nodup_nested id)]
    simp only [h.mem_nested, hk, Option.some.injEq, eq_comm]
  rw [visits_eq, List.count_cons, List.count_cons, count_flatMap_visits _ hinside, hnested]
  simp only [beq_iff_eq]
termination_by g.links.size - id
decreasing_by simp only [ModuleId] at *; omega

/-- A module without owner is met only where the walk begins. -/
theorem count_visits_of_root (h : g.Linked) (hk : g.owner? k = none) (id : ModuleId) :
    (g.visits id).count k = if id = k then 1 else 0 := by
  have hinside : ∀ c ∈ g.nested id, (g.visits c).count k = 0 := by
    intro c hc
    have := Links.lt_of_mem_nested hc
    have hck : c ≠ k := by
      rintro rfl
      rw [h.mem_nested, hk] at hc
      cases hc
    rw [count_visits_of_root h hk c, if_neg hck]
  have hzero : ((g.nested id).flatMap g.visits).count k = 0 := by
    rw [List.count_eq_zero, List.mem_flatMap]
    rintro ⟨c, hc, hmem⟩
    exact absurd (hinside c hc) (Nat.pos_iff_ne_zero.mp (List.count_pos_iff.mpr hmem))
  rw [visits_eq, List.count_cons, hzero]
  simp
termination_by g.links.size - id
decreasing_by simp only [ModuleId] at *; omega

/-- What the walk from all roots visits, in order. -/
def walk (g : Graph) : List ModuleId :=
  g.roots.flatMap g.visits

theorem count_walk_of_root (h : g.Linked) (hk : g.owner? k = none) :
    g.walk.count k = g.roots.count k := by
  unfold walk
  induction g.roots with
  | nil => rfl
  | cons r rest ih =>
    rw [List.flatMap_cons, List.count_append, ih, count_visits_of_root h hk, List.count_cons]
    simp only [beq_iff_eq]
    omega

theorem count_walk_of_owner (h : g.Linked) {j : ModuleId} (hk : g.owner? k = some j) :
    g.walk.count k = g.walk.count j := by
  have hroot : g.roots.count k = 0 := by
    rw [List.count_eq_zero, h.mem_roots, hk]
    simp
  have := count_flatMap_visits g.roots fun i _ => count_visits_of_owner h hk i
  rw [hroot] at this
  exact this

/-- The walk meets a module once if there is one, else never. -/
theorem count_walk (h : g.Linked) (k : ModuleId) : g.walk.count k = if k < g.size then 1 else 0 := by
  induction k using Nat.strongRecOn with
  | ind k ih =>
    cases hk : g.owner? k with
    | none =>
      rw [count_walk_of_root h hk, List.Nodup.count h.nodup_roots]
      simp only [h.mem_roots, hk, and_true]
    | some j =>
      have hjk := h.owned k j hk
      have hsize := lt_of_owner? hk
      rw [count_walk_of_owner h hk, ih j hjk, if_pos (Nat.lt_trans hjk hsize), if_pos hsize]

/-- **The walk from the roots meets every module exactly once.** -/
theorem perm_range_visits (h : g.Linked) : g.walk.Perm (List.range g.size) := by
  rw [List.perm_iff_count]
  intro k
  rw [count_walk h, List.Nodup.count List.nodup_range]
  simp only [List.mem_range]

theorem nodup_walk (h : g.Linked) : g.walk.Nodup :=
  (perm_range_visits h).nodup_iff.mpr List.nodup_range

end Rubify.Program.Graph
