import Rubify.Proofs.Phrase.Pieces
import Rubify.Proofs.Program.Paths

/-!
# Definitions and references

A type that stands at top level, or is a member of such a type, is defined under its names, each with a
capital (`Graph.path`). Where Java writes its dotted name, letter case decides: the names in front of
the first capitalised one are read as a package, and get capitals; from there on they are read as
classes, and are kept (`ClassName.reference`). A class of the package `java.lang` loses the package.

No capital form is shorter than the name, so both texts can only agree name by name. They do iff the names
that are read as classes are their own capital forms, and those in front are not `java` and `lang`.

Headlines:
* **`reference_eq_path_iff`**: when a declared type is referred to by the path that it is defined under.
* **`reference_lowercase`**: a class without a capital is not.
-/

namespace Rubify

/-! ## Capital forms -/

namespace Text

theorem longCapitals_ne_nil : ∀ entry ∈ longCapitals, entry.2 ≠ [] := by decide

theorem upper_ne_nil (c : Char) : upper c ≠ [] := by
  unfold upper
  split
  · rename_i codes hfind
    simpa using longCapitals_ne_nil _ (List.mem_of_find?_eq_some hfind)
  · split <;> exact List.cons_ne_nil _ _

theorem length_le_capitalize (name : String) :
    name.toList.length ≤ (capitalize name).toList.length := by
  unfold capitalize
  split
  · rename_i hnil
    simp [hnil]
  · rename_i c rest hcons
    have hupper := List.length_pos_iff.mpr (upper_ne_nil c)
    rw [hcons, String.toList_ofList, List.length_append, List.length_cons]
    omega

/-- Names without dots are found again in their dotted path. -/
theorem segments_intercalate {names : List String} (hne : names ≠ [])
    (hdots : ∀ name ∈ names, '.' ∉ name.toList) : segments (".".intercalate names) = names := by
  have hsplit : ([('.')].intercalate (names.map String.toList)).splitOn '.' =
      names.map String.toList := by
    refine List.splitOn_intercalate '.' ?_ (by simpa using hne)
    intro cs hcs
    obtain ⟨name, hname, rfl⟩ := List.mem_map.mp hcs
    exact hdots name hname
  have hdot : ".".toList = ['.'] := rfl
  rw [segments, String.toList_intercalate, hdot, hsplit, List.map_map]
  simp [Function.comp_def]

end Text

/-! ## Joined segments -/

section

variable {sep : List Char} {xs ys : List (List Char)}

theorem length_intercalate_le (sep : List Char)
    (h : List.Forall₂ (fun x y => x.length ≤ y.length) xs ys) :
    (sep.intercalate xs).length ≤ (sep.intercalate ys).length := by
  induction h with
  | nil => exact Nat.le_refl _
  | @cons x y xs ys hxy hrest ih =>
    cases hrest with
    | nil => simpa using hxy
    | cons =>
      simp only [List.intercalate_cons_cons, List.length_append] at ih ⊢
      omega

/-- Segments of which none is longer than its counterpart are joined to the same text only if they are
the same. -/
theorem eq_of_intercalate_eq (h : List.Forall₂ (fun x y => x.length ≤ y.length) xs ys)
    (heq : sep.intercalate xs = sep.intercalate ys) : xs = ys := by
  induction h with
  | nil => rfl
  | @cons x y xs ys hxy hrest ih =>
    have hle := length_intercalate_le sep hrest
    cases hrest with
    | nil => simpa using heq
    | cons =>
      rw [List.intercalate_cons_cons, List.intercalate_cons_cons] at heq
      have htotal := congrArg List.length heq
      simp only [List.length_append] at htotal
      rw [List.append_assoc, List.append_assoc] at heq
      obtain ⟨hfirst, hmore⟩ := List.append_inj heq (by omega)
      rw [hfirst, ih (List.append_cancel_left hmore)]

end

theorem forall₂_length_capitalize (names : List String) :
    List.Forall₂ (fun x y : List Char => x.length ≤ y.length) (names.map String.toList)
      ((names.map Text.capitalize).map String.toList) := by
  rw [List.forall₂_map_left_iff, List.forall₂_map_right_iff, List.forall₂_map_right_iff,
    List.forall₂_same]
  exact fun name _ => Text.length_le_capitalize name

/-- Joined names and their joined capital forms agree iff the names are these forms. -/
theorem intercalate_capitalize_iff {package names : List String} :
    "::".intercalate (package ++ names) = "::".intercalate (package ++ names.map Text.capitalize) ↔
      ∀ name ∈ names, Text.capitalize name = name := by
  constructor
  · intro heq
    rw [← String.toList_inj, String.toList_intercalate, String.toList_intercalate, List.map_append,
      List.map_append] at heq
    have hsame : List.Forall₂ (fun x y : List Char => x.length ≤ y.length)
        (package.map String.toList) (package.map String.toList) :=
      List.forall₂_same.mpr fun _ _ => Nat.le_refl _
    have hnames := List.append_cancel_left
      (eq_of_intercalate_eq (List.rel_append hsame (forall₂_length_capitalize names)) heq)
    rw [List.map_map] at hnames
    intro name hname
    exact (String.toList_inj.mp (List.map_inj_left.mp hnames name hname)).symm
  · intro hkept
    rw [List.map_congr_left hkept, List.map_id']

/-- Names in a package of two more names are joined to something longer. -/
theorem length_intercalate_javaLang (names : List String) :
    ("::".intercalate names).toList.length <
      ("::".intercalate
        (["java", "lang"].map Text.capitalize ++ names.map Text.capitalize)).toList.length := by
  have hle := length_intercalate_le "::".toList (forall₂_length_capitalize names)
  have hjava : ["java", "lang"].map Text.capitalize = ["Java", "Lang"] := by decide
  rw [hjava, String.toList_intercalate, String.toList_intercalate]
  cases hn : names.map Text.capitalize with
  | nil =>
    rw [List.map_eq_nil_iff.mp hn]
    decide
  | cons first rest =>
    rw [hn] at hle
    refine Nat.lt_of_le_of_lt hle ?_
    simp only [List.map_cons, List.cons_append, List.nil_append, List.intercalate_cons_cons,
      List.length_append]
    have hjoined : 0 < "Java".toList.length := by decide
    omega

/-! ## References -/

namespace ClassName

/-- The names of a path are those of the package and those of the class. -/
theorem package_append_names (path : List String) :
    (ofSegments path).package ++ (ofSegments path).names = path := by
  unfold ofSegments
  split
  · rcases path.eq_nil_or_concat with rfl | ⟨init, last, rfl⟩
    · rfl
    · simp
  · exact List.takeWhile_append_dropWhile

/-- A path is referred to by the capital forms of its names iff the names that are read as classes are
their own capital forms, and it is not read as a class of `java.lang`. -/
theorem reference_ofSegments_iff (path : List String) :
    (ofSegments path).reference = "::".intercalate (path.map Text.capitalize) ↔
      (ofSegments path).package ≠ ["java", "lang"] ∧
        ∀ name ∈ (ofSegments path).names, Text.capitalize name = name := by
  have hpath := package_append_names path
  generalize ofSegments path = c at hpath ⊢
  subst hpath
  rw [reference, isJavaLang, List.map_append]
  by_cases hlang : c.package = ["java", "lang"]
  · refine iff_of_false (fun heq => ?_) fun h => h.1 hlang
    have hlonger := length_intercalate_javaLang c.names
    rw [hlang, decide_eq_true rfl, if_pos rfl, List.nil_append] at heq
    rw [← heq] at hlonger
    exact Nat.lt_irrefl _ hlonger
  · rw [decide_eq_false hlang, if_neg Bool.false_ne_true, intercalate_capitalize_iff]
    exact (and_iff_right hlang).symm

end ClassName

namespace Program

open Grammar (Dialect)

/-- The names of the dotted path that a type has in Java, if it has one: it stands at top level, or is
a member of such a type. -/
def Graph.javaNames? (g : Graph) (id : ModuleId) : Option (List String) :=
  match g.get? id with
  | none => none
  | some m =>
    if m.kind = .innerClass then none
    else
      match m.owner with
      | ⟨none, none⟩ => some [m.name]
      | ⟨some owner, none⟩ =>
        if owner < id then (g.javaNames? owner).map (· ++ [m.name]) else none
      | ⟨_, some _⟩ => none
termination_by id

theorem Graph.path_of_javaNames {g : Graph} (hg : g.Owned) {id : ModuleId} {names : List String}
    (h : g.javaNames? id = some names) : names ≠ [] ∧ g.path id = names.map Text.capitalize := by
  induction id using Nat.strongRecOn generalizing names with
  | ind id ih =>
    rw [javaNames?] at h
    cases hm : g.get? id with
    | none => rw [hm] at h; cases h
    | some m =>
      simp only [hm] at h
      split at h
      · cases h
      · rename_i hkind
        have hname := Module.rubyName_of_ne hkind
        split at h
        · rename_i howner
          cases h
          exact ⟨List.cons_ne_nil _ _, by rw [path_of_root hm (by rw [howner]), hname]; rfl⟩
        · rename_i owner howner
          split at h
          · rename_i hlt
            obtain ⟨outer, houter, rfl⟩ := Option.map_eq_some_iff.mp h
            rw [path_of_owner hg hm (by rw [howner]), (ih owner hlt houter).2, hname, List.map_append]
            exact ⟨by simp, rfl⟩
          · cases h
        · cases h

/-- What a name is written as where neither a type variable nor a type of the body has it. -/
theorem references_eq {cx : Context} : ∀ {names : List String},
    (∀ name, names = [name] → cx.isTypeParam name = false ∧ cx.localType? name = none) →
      (cx.resolveName names).reference = (ClassName.ofDotted (".".intercalate names)).reference ∧
      Ruby.classReference cx.localType? names =
        (ClassName.ofDotted (".".intercalate names)).reference
  | [], _ => ⟨rfl, rfl⟩
  | [name], h => by
    obtain ⟨hparam, hlocal⟩ := h name rfl
    simp [Context.resolveName, Ruby.classReference, hparam, hlocal, JavaType.reference]
  | _ :: _ :: _, _ => ⟨rfl, rfl⟩

/-- **When a declared type is referred to by the path that it is defined under.** The type is defined
under the capital forms of its names. Behind `extends` and `new`, its dotted name becomes the same path
iff the names that are read as classes are their own capital forms, and the others are not `java` and
`lang`. -/
theorem reference_eq_path_iff {tree : Node} {g : Graph} (h : Graph.ofTree .ruby tree = .ok g)
    {id : ModuleId} {names : List String} (hid : g.javaNames? id = some names)
    (hdots : ∀ name ∈ names, '.' ∉ name.toList) :
    g.path id = names.map Text.capitalize ∧
      (∀ cx : Context, (∀ name, names = [name] →
          cx.isTypeParam name = false ∧ cx.localType? name = none) →
        (cx.resolveName names).reference = (ClassName.ofDotted (".".intercalate names)).reference ∧
        Ruby.classReference cx.localType? names =
          (ClassName.ofDotted (".".intercalate names)).reference) ∧
      ((ClassName.ofDotted (".".intercalate names)).reference = "::".intercalate (g.path id) ↔
        (ClassName.ofSegments names).package ≠ ["java", "lang"] ∧
          ∀ name ∈ (ClassName.ofSegments names).names, Text.capitalize name = name) := by
  obtain ⟨u, hu, rfl⟩ := ofTree_eq_ok h
  have owned := (sound_ofUnit .ruby (Grammar.tidy_of_readUnit hu)).owned
  obtain ⟨hne, hpath⟩ := Graph.path_of_javaNames owned hid
  refine ⟨hpath, fun cx hcx => references_eq hcx, ?_⟩
  rw [ClassName.ofDotted, Text.segments_intercalate hne hdots, hpath]
  exact ClassName.reference_ofSegments_iff names

/-- A class without a capital around two classes with one. -/
def plane : Node :=
  Phrase.compilationUnit none [] [Phrase.typeDeclaration [] (Phrase.classDeclaration "plane" [] none []
    [Phrase.memberType [] (Phrase.classDeclaration "Point" [] none []
      [Phrase.memberType ["static"] (Phrase.classDeclaration "Pixel" [] none [] [])])])]

/-- `plane` is read as a package and gets its capital. -/
theorem reference_eq_path_iff_plane : ∃ g, Graph.ofTree .ruby plane = .ok g ∧
    g.javaNames? 2 = some ["plane", "Point", "Pixel"] ∧
    (ClassName.ofDotted "plane.Point.Pixel").reference = "::".intercalate (g.path 2) := by
  have hnames : (Graph.ofTree .ruby plane).toOption.map (Graph.javaNames? · 2) =
      some (some ["plane", "Point", "Pixel"]) := by decide +kernel
  have hcapital : (ClassName.ofSegments ["plane", "Point", "Pixel"]).package ≠ ["java", "lang"] ∧
      ∀ name ∈ (ClassName.ofSegments ["plane", "Point", "Pixel"]).names,
        Text.capitalize name = name := by decide +kernel
  have hdots : ∀ name ∈ ["plane", "Point", "Pixel"], '.' ∉ name.toList := by decide
  cases h : Graph.ofTree .ruby plane with
  | error e => rw [h] at hnames; cases hnames
  | ok g =>
    rw [h] at hnames
    have hid := Option.some.inj hnames
    exact ⟨g, rfl, hid, (reference_eq_path_iff h hid hdots).2.2.mpr hcapital⟩

/-- A class without a capital, and a subclass of it. -/
def shapes : Node :=
  Phrase.compilationUnit none []
    [Phrase.typeDeclaration [] (Phrase.classDeclaration "point" [] none [] []),
     Phrase.typeDeclaration [] (Phrase.classDeclaration "Circle" [] (some "point") [] [])]

/-- A class without a capital is defined with one, and referred to without. -/
theorem reference_lowercase :
    (Graph.ofTree .ruby shapes).toOption.map (fun g => (g.javaNames? 0, "::".intercalate (g.path 0))) =
      some (some ["point"], "Point") ∧
    (ClassName.ofDotted "point").reference = "point" ∧
    (convert {} shapes).toOption = some "class Point\nend\n\nclass Circle < point\nend\n" := by
  decide +kernel

end Program

end Rubify
