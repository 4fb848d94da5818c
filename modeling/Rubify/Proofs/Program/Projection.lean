import Mathlib.Data.List.Induction
import Rubify.Proofs.Program.Growth

/-!
# What additions make of a module

Additions are made one after another, and sorts of members alternate as they like. Seen from one
sort, only the additions of that sort matter: a module that was empty holds, for each sort, what was
added of it, in order. The static members are numbered sort by sort, and `staticOrder` has them as
they were added (`numbered`).

Headline:
* **`Module.foldl_add_of_isEmpty`**: an empty module with additions, field by field.
-/

namespace Rubify.Program

/-! ## Numbering static members -/

/-- The sorts of static members. -/
inductive StaticSort
  | field | constant | block
  deriving DecidableEq

/-- The static member of a sort at a place. -/
def StaticSort.member : StaticSort → Nat → StaticMember
  | .field => .field
  | .constant => .constant
  | .block => .block

/-- Static members of the given sorts, each at the place that tells how many of its sort stand in
front of it. -/
def numbered (sorts : List StaticSort) : List StaticMember :=
  sorts.mapIdx fun i sort => sort.member ((sorts.take i).count sort)

theorem numbered_concat (sorts : List StaticSort) (sort : StaticSort) :
    numbered (sorts ++ [sort]) = numbered sorts ++ [sort.member (sorts.count sort)] := by
  unfold numbered
  rw [List.mapIdx_concat, List.take_left']
  · congr 1
    refine List.mapIdx_eq_mapIdx_iff.mpr fun i hi => ?_
    rw [List.take_append_of_le_length (Nat.le_of_lt hi)]
  · rfl

/-! ## Sorts of additions -/

namespace Addition

/-- The field, if it is one. -/
def field? : Addition → Option Field
  | .field f => some f
  | _ => none

/-- The static field, if it is one. -/
def staticField? : Addition → Option Field
  | .staticField f => some f
  | _ => none

/-- The constant, if it is one. -/
def constant? : Addition → Option Constant
  | .constant c => some c
  | _ => none

/-- The static block, if it is one. -/
def block? : Addition → Option StaticBlock
  | .block b => some b
  | _ => none

/-- The method, if it is one. -/
def method? : Addition → Option Method
  | .method m => some m
  | _ => none

/-- The constructor, if it is one. -/
def constructor? : Addition → Option Constructor
  | .constructor c => some c
  | _ => none

/-- The sort of static member, if it is one. -/
def sort? : Addition → Option StaticSort
  | .staticField _ => some .field
  | .constant _ => some .constant
  | .block _ => some .block
  | .field _ | .method _ | .constructor _ => none

end Addition

/-- As many static members of a sort are added as things of that sort. -/
theorem count_sorts {β : Type} (sort : StaticSort) (pick : Addition → Option β)
    (h : ∀ a : Addition, a.sort? = some sort ↔ (pick a).isSome) (as : List Addition) :
    (as.filterMap Addition.sort?).count sort = (as.filterMap pick).length := by
  induction as with
  | nil => rfl
  | cons a rest ih =>
    have ha := h a
    rw [List.filterMap_cons, List.filterMap_cons]
    cases hsort : a.sort? <;> cases hpick : pick a <;> simp_all

/-- **An empty module with additions** has the additions of each sort, in order. -/
theorem Module.foldl_add_of_isEmpty {m : Module} (hm : m.IsEmpty) (as : List Addition) :
    as.foldl Module.add m =
      { m with
        fields := as.filterMap Addition.field?
        staticFields := as.filterMap Addition.staticField?
        constants := as.filterMap Addition.constant?
        constructors := as.filterMap Addition.constructor?
        methods := as.filterMap Addition.method?
        staticBlocks := as.filterMap Addition.block?
        staticOrder := numbered (as.filterMap Addition.sort?) } := by
  have hfields := count_sorts .field Addition.staticField? fun a => by
    cases a <;> simp [Addition.sort?, Addition.staticField?]
  have hconstants := count_sorts .constant Addition.constant? fun a => by
    cases a <;> simp [Addition.sort?, Addition.constant?]
  have hblocks := count_sorts .block Addition.block? fun a => by
    cases a <;> simp [Addition.sort?, Addition.block?]
  induction as using List.reverseRecOn with
  | nil =>
    obtain ⟨hfields, hstatic, hconstants, hconstructors, hmethods, hblocks, horder⟩ := hm
    cases m
    simp_all [numbered]
  | append_singleton as a ih =>
    rw [List.foldl_append, ih]
    cases a <;> simp [Module.add, addField, addStaticField, addConstant, addStaticBlock, addMethod,
      addConstructor, Addition.field?, Addition.staticField?, Addition.constant?, Addition.block?,
      Addition.method?, Addition.constructor?, Addition.sort?, List.filterMap_cons,
      numbered_concat, StaticSort.member, hfields, hconstants, hblocks]

/-- Finishing a class adds a constructor where it is needed. -/
theorem Module.ensureConstructor_of_not_interface {m : Module} (h : m.isInterface = false) :
    m.ensureConstructor = { m with
      constructors := if m.constructors.isEmpty && !m.fields.isEmpty then [.ofInvocation [] .none]
        else m.constructors } := by
  unfold ensureConstructor
  rw [h]
  obtain ⟨kind, name, owner, generics, superclass, interfaces, fields, staticFields, constants,
    constructors, _⟩ := m
  cases constructors <;> cases fields <;> rfl

end Rubify.Program
