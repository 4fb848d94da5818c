import Rubify.Proofs.Program.Invariant

/-!
# Where the types of a body are listed

A constructor, a method or a static block lists the types declared in its body. While a module is
being built its list is not complete: a type is listed in the open body when it is closed, and the body
hands its list over when it is closed itself. `Build.listing` counts both, what a module lists and what
still waits; in this ledger every type that stands in a body of the module is found once, and nothing
else (`Listed`).

Headline:
* **`listed_run`**: a run keeps the ledger.
* **`countP_bodyLists`**: in a finished graph a module stands in a body of another iff exactly one of
  the other's lists has it.
-/

namespace Rubify.Program

open Grammar (Dialect)

/-! ## Lists of a module -/

/-- The lists of types of the bodies in a module. -/
def Module.bodyLists (m : Module) : List (List ModuleId) :=
  m.constructors.map (·.localClasses) ++ m.methods.map (·.localClasses) ++
    m.staticBlocks.map (·.localClasses)

/-- The types listed by the module at a place. -/
def Graph.bodyClasses (g : Graph) (j : ModuleId) : List ModuleId :=
  ((g.get? j).map fun m => m.bodyLists.flatten).getD []

/-- Whether the module `k` stands in a body of the module `j`. -/
def Graph.inBodyOf (g : Graph) (j k : ModuleId) : Bool :=
  (g.get? k).any fun m => m.owner.module = some j && m.owner.method.isSome

variable {m : Module} {g : Graph} {j k : ModuleId}

theorem count_bodyLists_add (m : Module) (a : Addition) (k : ModuleId) :
    (m.add a).bodyLists.flatten.count k =
      m.bodyLists.flatten.count k + a.localClasses.count k := by
  cases a with
  | field | staticField | constant => rfl
  | block | method | constructor =>
    simp [Module.bodyLists, Module.add, Module.addStaticBlock, Module.addMethod,
      Module.addConstructor, Addition.localClasses]
    omega

theorem count_bodyLists_ensureConstructor (m : Module) (k : ModuleId) :
    m.ensureConstructor.bodyLists.flatten.count k = m.bodyLists.flatten.count k := by
  rcases m.ensureConstructor_eq with h | h
  · rw [h]
  · rw [h, count_bodyLists_add]
    rfl

theorem Module.IsEmpty.bodyLists (h : m.IsEmpty) : m.bodyLists = [] := by
  simp [Module.bodyLists, h.constructors, h.methods, h.staticBlocks]

/-- A new module lists nothing. -/
theorem bodyClasses_alloc (g : Graph) (new : Module) (h : new.bodyLists.flatten = [])
    (j : ModuleId) : (g.alloc new).2.bodyClasses j = g.bodyClasses j := by
  unfold Graph.bodyClasses
  rw [Graph.get?_alloc]
  by_cases hj : j = g.size
  · subst hj
    rw [if_pos rfl, Graph.get?_eq_none_iff.mpr (Nat.le_refl _)]
    simpa using h
  · rw [if_neg hj]

theorem count_bodyClasses_modify {id : ModuleId} {f : Module → Module} {n : Nat}
    (hid : id < g.size)
    (hf : ∀ m, (f m).bodyLists.flatten.count k = m.bodyLists.flatten.count k + n) (j : ModuleId) :
    ((g.modify id f).bodyClasses j).count k =
      (g.bodyClasses j).count k + if j = id then n else 0 := by
  unfold Graph.bodyClasses
  rw [Graph.get?_modify]
  cases hm : g.get? j with
  | none =>
    have hj : j ≠ id := by
      rintro rfl
      exact absurd (Graph.get?_eq_none_iff.mp hm) (Nat.not_le.mpr hid)
    simp [hj]
  | some m =>
    by_cases hj : j = id
    · simp only [hj, if_pos, Option.map_some, Option.getD_some]
      exact hf m
    · simp [hj]

theorem inBodyOf_alloc (g : Graph) (new : Module) (j k : ModuleId) :
    (g.alloc new).2.inBodyOf j k = if k = g.size then
      new.owner.module = some j && new.owner.method.isSome else g.inBodyOf j k := by
  unfold Graph.inBodyOf
  rw [Graph.get?_alloc]
  by_cases hk : k = g.size <;> simp [hk]

theorem inBodyOf_modify {id : ModuleId} {f : Module → Module} (hf : ∀ m, (f m).owner = m.owner)
    (j k : ModuleId) : (g.modify id f).inBodyOf j k = g.inBodyOf j k := by
  unfold Graph.inBodyOf
  rw [Graph.get?_modify]
  cases g.get? k with
  | none => rfl
  | some m => by_cases hk : k = id <;> simp [hk, hf]

/-! ## The ledger -/

/-- The types in bodies of the module `j` that no constructor, method or static block lists yet: those
that are still open, and those in the list of an open body. -/
def waiting (j : ModuleId) : List Frame → List ModuleId
  | [] => []
  | .type k _ :: fs =>
    (if (ownerOf fs).module = some j && (ownerOf fs).method.isSome then [k] else []) ++ waiting j fs
  | .body _ classes :: fs =>
    (if (ownerOf fs).module = some j then classes else []) ++ waiting j fs

/-- The types listed by the module `j`, and those that wait to be. -/
def Build.listing (s : Build) (j : ModuleId) : List ModuleId :=
  s.graph.bodyClasses j ++ waiting j s.stack

/-- Every type that stands in a body of a module is in its ledger once, and nothing else is. -/
def Listed (s : Build) : Prop :=
  ∀ j k, (s.listing j).count k = if s.graph.inBodyOf j k then 1 else 0

/-- A type is closed where it was opened: the body around it lists it, if there is one. -/
theorem count_waiting_listed (j k id : ModuleId) (o : Origin) (fs : List Frame) :
    (waiting j (listed id fs)).count k = (waiting j (.type id o :: fs)).count k := by
  cases fs with
  | nil => simp [listed, waiting, ownerOf]
  | cons f rest =>
    cases f with
    | type id' o' => simp [listed, waiting, ownerOf]
    | body method classes =>
      by_cases hj : (ownerOf rest).module = some j
      · simp only [listed, waiting, ownerOf, hj, if_true, decide_true, Option.isSome_some,
          Bool.and_self, List.count_append]
        omega
      · simp [listed, waiting, ownerOf, hj]

section

variable {d : Dialect} {s s' : Build}

/-- A module is made, and it stands in a body iff it waits to be listed. -/
theorem listed_alloc {os : List Origin} {fs : List Frame} {new : Module} {o : Origin}
    (hempty : new.bodyLists.flatten = []) (howner : new.owner = ownerOf fs)
    (h : Listed ⟨g, os, fs⟩) :
    Listed ⟨(g.alloc new).2, os ++ [o], .type g.size o :: fs⟩ := by
  intro j k
  have hjk := h j k
  simp only [Build.listing, List.count_append] at hjk
  simp only [Build.listing, bodyClasses_alloc g new hempty, waiting, inBodyOf_alloc, howner,
    List.count_append]
  by_cases hk : k = g.size
  · subst hk
    have hnone : g.inBodyOf j g.size = false := by
      simp [Graph.inBodyOf, Graph.get?_eq_none_iff.mpr (Nat.le_refl _)]
    simp only [hnone, Bool.false_eq_true, if_false] at hjk
    rw [if_pos rfl]
    split_ifs <;> simp <;> omega
  · have hcount : ∀ c : Prop, ∀ [Decidable c], (if c then [g.size] else []).count k = 0 := by
      intro c _
      split_ifs <;> simp [Ne.symm hk]
    rw [if_neg hk, hcount]
    omega

/-- Nothing is made, and what a module lists anew did wait before. -/
theorem listed_modify {os : List Origin} {fs fs' : List Frame} {id : ModuleId}
    {f : Module → Module} (classes : List ModuleId) (hid : id < g.size)
    (howner : ∀ m, (f m).owner = m.owner)
    (hf : ∀ m k, (f m).bodyLists.flatten.count k =
      m.bodyLists.flatten.count k + classes.count k)
    (hfs : ∀ j k, (if j = id then classes.count k else 0) + (waiting j fs').count k =
      (waiting j fs).count k)
    (h : Listed ⟨g, os, fs⟩) : Listed ⟨g.modify id f, os, fs'⟩ := by
  intro j k
  have hjk := h j k
  have hwait := hfs j k
  simp only [Build.listing, List.count_append] at hjk
  simp only [Build.listing, inBodyOf_modify howner, List.count_append,
    count_bodyClasses_modify hid fun m => hf m k]
  omega

/-- **One step keeps the ledger.** -/
theorem Step.listed (h : Step d s s') (hs : s.Coherent) (hl : Listed s) : Listed s' := by
  obtain ⟨hlen, hstack⟩ := hs
  have hlt : ∀ {id o}, s.origins[id]? = some o → id < s.graph.size := by
    intro id o ho
    rw [← hlen]
    exact (List.getElem?_eq_some_iff.mp ho).1
  cases h with
  | openType cx decl static new hcx hkind howner hempty =>
    exact listed_alloc (by rw [hempty.bodyLists]; rfl) (howner.trans hcx) hl
  | openConstant name body ho => exact listed_alloc rfl rfl hl
  | openBody method =>
    intro j k
    have hjk := hl j k
    simp only [Build.listing] at hjk
    simp [Build.listing, waiting, ownerOf, ← hjk]
  | add a ha hla =>
    refine listed_modify a.localClasses (hlt hstack.1) (fun m => m.owner_add a)
      (fun m k => count_bodyLists_add m a k) (fun j k => ?_) hl
    simp [hla]
  | @closeBody g os fs id o method a ha =>
    refine listed_modify a.localClasses (hlt hstack.2.1) (fun m => m.owner_add a)
      (fun m k => count_bodyLists_add m a k) (fun j k => ?_) hl
    by_cases hj : j = id
    · simp [waiting, ownerOf, hj]
    · simp [waiting, ownerOf, hj, Ne.symm hj]
  | refer c houter =>
    obtain ⟨o', ho'⟩ := origin_of_open hstack.2 (open_of_ownerOf houter)
    refine listed_modify [] (hlt ho') (fun m => rfl) (fun m k => rfl)
      (fun j k => ?_) hl
    simp
  | @closeType g os fs id o ho hc =>
    refine listed_modify [] (hlt hstack.1) Module.owner_ensureConstructor
      count_bodyLists_ensureConstructor (fun j k => ?_) hl
    rw [count_waiting_listed j k id o fs]
    simp
  | @closeInterface g os fs id o ho =>
    intro j k
    have hjk := hl j k
    simp only [Build.listing, List.count_append] at hjk
    simp only [Build.listing, List.count_append, count_waiting_listed j k id o fs, hjk]
  | closeConstant =>
    intro j k
    have hjk := hl j k
    simpa [Build.listing, waiting, ownerOf] using hjk

/-- **A run keeps the ledger.** -/
theorem listed_run (h : Run d s s') (hs : Sound d s) (hl : Listed s) : Listed s' := by
  induction h with
  | refl => exact hl
  | tail run step ih => exact step.listed (sound_run run hs).coherent ih

theorem listed_empty (hmodules : g.modules = #[]) : Listed ⟨g, [], []⟩ := by
  intro j k
  have hnone : ∀ id, g.get? id = none := fun id => by simp [Graph.get?, hmodules]
  simp [Build.listing, Graph.bodyClasses, Graph.inBodyOf, waiting, hnone]

end

/-! ## Finished graphs -/

/-- Where an element occurs at most once, it occurs in as many of the lists. -/
theorem countP_mem_eq_count_flatten (lists : List (List ModuleId))
    (h : lists.flatten.count k ≤ 1) :
    lists.countP (fun list => k ∈ list) = lists.flatten.count k := by
  induction lists with
  | nil => rfl
  | cons list rest ih =>
    rw [List.flatten_cons, List.count_append] at h ⊢
    rw [List.countP_cons, ih (by omega)]
    by_cases hk : k ∈ list
    · have hpos := List.count_pos_iff.mpr hk
      simp [hk]
      omega
    · simp [hk, List.count_eq_zero.mpr hk]

/-- **A module stands in a body of `j` iff exactly one list of `j` has it.** -/
theorem countP_bodyLists {os : List Origin} (h : Listed ⟨g, os, []⟩) (hj : g.get? j = some m)
    (k : ModuleId) :
    m.bodyLists.countP (fun list => k ∈ list) = if g.inBodyOf j k then 1 else 0 := by
  have hjk := h j k
  simp only [Build.listing, Graph.bodyClasses, waiting, hj, Option.map_some, Option.getD_some,
    List.append_nil] at hjk
  rw [countP_mem_eq_count_flatten]
  · exact hjk
  · rw [hjk]
    split_ifs <;> omega

end Rubify.Program
