import Rubify.Proofs.Grammar.Types
import Rubify.Proofs.Program.References

/-!
# Types survive printing and reading

A type is printed as its class or keyword with a pair of brackets per array dimension
(`JavaType.display`), and the phrase of a type cuts the pairs off again (`Phrase.type`). So reading
peels off one dimension where printing added one, and what is left to compare is the class. Its segments
are those of the dotted name that it was taken from, wherever letter case has divided them.

A text that is a type can be something else: brackets inside of a name would be cut off with the others,
and a keyword, a type variable or a type of the body comes before a class of the same name.

Headline:
* **`readType_display`**: a dotted name is the qualified name of its class, and a type whose class has a
  name of its own is read back from the phrase of its text.
-/

namespace Rubify

open Phrase Program

/-! ## Names -/

/-- A dotted name is the qualified name of its class. -/
theorem ClassName.qualified_ofDotted (path : String) : (ClassName.ofDotted path).qualified = path := by
  rw [ClassName.qualified, ClassName.ofDotted, ClassName.package_append_names, intercalate_segments]

/-- What stands in no part of a text and not in the separator does not stand in the text. -/
theorem not_mem_intercalate {sep : List Char} {parts : List (List Char)} {c : Char} (hsep : c ∉ sep)
    (h : ∀ part ∈ parts, c ∉ part) : c ∉ sep.intercalate parts := by
  induction parts with
  | nil => exact List.not_mem_nil
  | cons first more ih =>
    obtain ⟨hfirst, hmore⟩ := List.forall_mem_cons.mp h
    cases more with
    | nil => simpa using hfirst
    | cons second more =>
      rw [List.intercalate_cons_cons, List.mem_append, List.mem_append]
      exact not_or.mpr ⟨not_or.mpr ⟨hfirst, hsep⟩, ih hmore⟩

/-- A bracket that stands in no segment of a path stands nowhere in it. -/
theorem not_mem_of_segments {path : String}
    (h : ∀ segment ∈ Text.segments path, '[' ∉ segment.toList) : '[' ∉ path.toList := by
  rw [← intercalate_segments path, String.toList_intercalate]
  exact not_mem_intercalate (by decide) (by simpa using h)

/-! ## Brackets -/

namespace Phrase

theorem cutDims_of_not_mem {cs : List Char} (h : '[' ∉ cs) : cutDims cs = (cs, 0) := by
  unfold cutDims
  split
  · simp at h
  · rfl

theorem splitDims_of_not_mem {text : String} (h : '[' ∉ text.toList) : splitDims text = (text, 0) := by
  rw [splitDims, cutDims_of_not_mem (by simpa using h)]
  simp only [List.reverse_reverse, String.ofList_toList]

/-- A pair of brackets at the end is one dimension more. -/
theorem typeRef_brackets (text : String) :
    typeRef (text ++ "[]") = { typeRef text with dims := (typeRef text).dims + 1 } := by
  have hreverse : (text ++ "[]").toList.reverse = ']' :: '[' :: text.toList.reverse := by simp
  have hsplit : splitDims (text ++ "[]") = ((splitDims text).1, (splitDims text).2 + 1) := by
    rw [splitDims, hreverse, cutDims]
    rfl
  rw [typeRef, hsplit]
  rfl

theorem typeRef_keyword (p : Primitive) : typeRef p.keyword = ⟨.primitive p, 0⟩ := by
  cases p <;> decide

end Phrase

theorem JavaType.arrays_array (dims : Nat) (t : JavaType) :
    JavaType.arrays dims t.array = (JavaType.arrays dims t).array := by
  induction dims generalizing t with
  | zero => rfl
  | succ dims ih => exact ih t.array

/-! ## Types -/

namespace Program.Context

variable {cx : Context}

/-- A dotted name that means its class in the context: there are no brackets in it, and it is no
keyword, no type variable and no type of the body. -/
structure NamesClass (cx : Context) (path : String) : Prop where
  brackets : ∀ segment ∈ Text.segments path, '[' ∉ segment.toList
  keyword : Primitive.ofKeyword? path = none
  typeVariable : path ∉ cx.typeParams
  localType : cx.localType? path = none

/-- A type that can be printed: its base is not `void`, and a class is the class of such a name. -/
def Printable (cx : Context) : JavaType → Prop
  | .primitive _ => True
  | .named c => ∃ path, c = .ofDotted path ∧ cx.NamesClass path
  | .array t => cx.Printable t
  | .void => False

theorem resolveName_segments {path : String} (h : cx.NamesClass path) :
    cx.resolveName (Text.segments path) = .named (.ofDotted path) := by
  have hpath := intercalate_segments path
  unfold resolveName
  split
  · rename_i name heq
    rw [heq, String.intercalate_singleton] at hpath
    subst hpath
    simp [isTypeParam, h.typeVariable, h.localType, heq]
  · rw [hpath]

/-- One dimension more means an array. -/
theorem resolve_dims (r : Syntax.TypeRef) :
    cx.resolve { r with dims := r.dims + 1 } = (cx.resolve r).array :=
  JavaType.arrays_array _ _

/-- The text of a type means the type. -/
theorem resolve_typeRef_display {t : JavaType} (h : cx.Printable t) :
    cx.resolve (typeRef t.display) = t := by
  induction t with
  | primitive p => rw [JavaType.display, typeRef_keyword]; rfl
  | named c =>
    obtain ⟨path, rfl, hpath⟩ := h
    rw [JavaType.display, ClassName.qualified_ofDotted, typeRef,
      splitDims_of_not_mem (not_mem_of_segments hpath.brackets)]
    simp only [hpath.keyword]
    exact resolveName_segments hpath
  | array t ih =>
    rw [JavaType.display, typeRef_brackets, resolve_dims, ih h]
  | void => exact h.elim

/-- **Types survive printing and reading.** A dotted name is the qualified name of its class; and the
phrase of the text of a type is read as the type. -/
theorem readType_display : (∀ path, (ClassName.ofDotted path).qualified = path) ∧
    ∀ (cx : Context) (t : JavaType), cx.Printable t →
      cx.readType (Phrase.type t.display) = .ok (t, []) := by
  refine ⟨ClassName.qualified_ofDotted, fun cx t ht => ?_⟩
  rw [readType, Reader.readTree_of_takes (takes_type t.display), Except.map,
    resolve_typeRef_display ht]

/-- An array of arrays of a class without a capital, with an empty segment in its name. -/
theorem readType_display_entry :
    let cx : Context := { typeParams := ["T"], localTypes := [("Entry", ["Main", "Run", "Entry"])] }
    let t := JavaType.array (.array (.named (.ofDotted "java..entry")))
    cx.Printable t ∧ cx.readType (Phrase.type t.display) = .ok (t, []) := by
  intro cx t
  have ht : cx.Printable t := ⟨"java..entry", rfl, by decide, by decide, by decide, by decide⟩
  exact ⟨ht, readType_display.2 cx t ht⟩

end Program.Context

end Rubify
