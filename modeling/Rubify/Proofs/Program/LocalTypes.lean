import Rubify.Proofs.Program.Parts
import Rubify.Proofs.Program.References
import Mathlib.Data.List.Induction

/-!
# Types of bodies and their names

A type that is declared in a body is defined next to the method, under a path that its own name does not
give away. So where Java writes the name alone, what is written has to come from what the body knows
there: behind `new`, a name is written as the path of the type of the body that was declared last under
it, and as it is if there is none. Headers and the code inside of a type know nothing of the body around
the type.

Headlines:
* **`pieces_eq_template`**: all classes that an expression creates are written by their references;
* **`resolves_ofTree`**: in the scope of a type of the body its name becomes the path of its module; where
  no type of the name has been declared, and in headers, it never becomes the path of such a type;
* **`superclass_heirs`**: so a class that extends an earlier class of its body does not find it.
-/

namespace Rubify.Ruby

open Syntax

/-! ## Creations -/

/-- A piece of an expression. -/
inductive Piece
  | word (text : String)
  /-- An object of the class that the names spell. -/
  | object (names : List String)
  /-- An array with a size, to which an increment may be added, filled with a value. -/
  | array (size : List Piece) (step : String) (fill : String)

mutual

/-- The text of a piece, with classes written by `reference`. -/
def Piece.text (reference : List String → String) : Piece → String
  | .word text => text
  | .object names => reference names ++ ".new"
  | .array size step fill =>
    "Array.new(" ++ (join (pieceTexts reference size) ++ step) ++ ", " ++ fill ++ ")"

/-- The texts of pieces. -/
def pieceTexts (reference : List String → String) : List Piece → List String
  | [] => []
  | p :: rest => p.text reference :: pieceTexts reference rest

end

mutual

/-- The pieces of an expression of its own and the increment behind them. -/
def sizeTemplate (tokens : List String) : Except String (List Piece × String) :=
  match _h : splitStep? tokens with
  | some (op, target) => do
    let size ← sizeTemplate target
    return (size.1, size.2 ++ stepText op)
  | none =>
    match tokens.find? isStep with
    | some op => throw (innerStepText op tokens)
    | none => return (← template tokens, "")
termination_by 2 * tokens.length + 1
decreasing_by
  · have := splitStep?_length _h
    omega
  · omega

/-- The pieces that tokens stand for; which class a name means is left open. -/
def template (tokens : List String) : Except String (List Piece) :=
  match tokens with
  | [] => return []
  | token :: rest =>
    match _h : (lead token rest).1 with
    | .word text => return .word text :: (← template (lead token rest).2)
    | .object names => return .object names :: (← template (lead token rest).2)
    | .array element size => do
      let size ← sizeTemplate size
      return .array size.1 size.2 (elementDefault element) :: (← template (lead token rest).2)
termination_by 2 * tokens.length
decreasing_by
  all_goals rw [List.length_cons]
  all_goals have := length_lead_le token rest
  all_goals grind [→ length_size_lt]

end

mutual

theorem render_eq_template (locals : String → Option (List String)) (tokens : List String) :
    render locals tokens = (sizeTemplate tokens).map fun size =>
      join (pieceTexts (classReference locals) size.1) ++ size.2 := by
  rw [render, sizeTemplate]
  rcases hsplit : splitStep? tokens with _ | ⟨op, target⟩
  · cases hfind : tokens.find? isStep with
    | some op => rfl
    | none =>
      rw [pieces_eq_template locals tokens]
      cases template tokens with
      | error e => rfl
      | ok ps => simp [Except.map, bind, Except.bind, pure, Except.pure]
  · have hlt := splitStep?_length hsplit
    dsimp only
    rw [render_eq_template locals target]
    cases sizeTemplate target with
    | error e => rfl
    | ok size => simp [Except.map, bind, Except.bind, pure, Except.pure, String.append_assoc]
termination_by 2 * tokens.length + 1

/-- **Every class that an expression creates** is written by its reference, also in the sizes of
arrays. -/
theorem pieces_eq_template (locals : String → Option (List String)) (tokens : List String) :
    pieces locals tokens = (template tokens).map (pieceTexts (classReference locals)) := by
  cases tokens with
  | nil =>
    rw [pieces, template]
    rfl
  | cons token rest =>
    have hle := length_lead_le token rest
    rw [pieces, template, pieces_eq_template locals (lead token rest).2]
    cases hlead : (lead token rest).1 with
    | word text =>
      cases template (lead token rest).2 <;> rfl
    | object names =>
      cases template (lead token rest).2 <;> rfl
    | array element size =>
      have hlt := length_size_lt hlead
      dsimp only
      rw [render_eq_template locals size]
      cases sizeTemplate size with
      | error e => rfl
      | ok size => cases template (lead token rest).2 <;> rfl
termination_by 2 * tokens.length

end

end Rubify.Ruby

/-! ## What is written for a name -/

namespace Rubify.Syntax

/-- Whether a type is a class. -/
def TypeDecl.isClass : TypeDecl → Bool
  | .classType .. => true
  | .enumType .. | .interfaceType .. | .annotationType .. => false

end Rubify.Syntax

namespace Rubify.Program

open Grammar (Dialect)
open Syntax

section

variable {g : Graph} {cx : Context} {path : List String}

/-- Two classes of one name, or two other types, are defined under one name in a body. -/
theorem definedName_eq {method : Option MethodOwner} : ∀ {decl decl' : TypeDecl},
    decl'.name = decl.name → decl'.isClass = decl.isClass →
      definedName method decl' = definedName method decl := by
  intro decl decl' hname hclass
  cases decl <;> cases decl' <;> simp_all [TypeDecl.name, TypeDecl.isClass, definedName]

/-- The type of a name that was declared last is the one that is known. -/
theorem exists_localType?_knowing (cx : Context) (path : List String) (front : List TypeDecl)
    (decl : TypeDecl) (behind : List TypeDecl) : ∃ last ∈ decl :: behind, last.name = decl.name ∧
      (cx.knowing path (front ++ decl :: behind)).localType? decl.name =
        some (path ++ [definedName cx.method last]) := by
  induction behind using List.reverseRecOn with
  | nil =>
    exact ⟨decl, List.mem_cons_self, rfl, by simp [Context.localType?, Context.knowing]⟩
  | append_singleton behind last ih =>
    by_cases hname : last.name = decl.name
    · exact ⟨last, by simp, hname, by simp [Context.localType?, Context.knowing, hname]⟩
    · obtain ⟨found, hmem, hfound, hlocal⟩ := ih
      refine ⟨found, ?_, hfound, ?_⟩
      · rw [← List.cons_append]
        exact List.mem_append_left _ hmem
      · rw [← hlocal]
        simp [Context.localType?, Context.knowing, hname]

theorem localType?_knowing_of_ne {known : List TypeDecl} {name : String}
    (h : ∀ decl ∈ known, decl.name ≠ name) : (cx.knowing path known).localType? name = none := by
  simpa [Context.localType?, Context.knowing] using h

/-- A name on its own refers to itself. -/
theorem reference_ofDotted {name : String} (hdot : '.' ∉ name.toList) :
    (ClassName.ofDotted name).reference = name := by
  have hsegments := Text.segments_intercalate (List.cons_ne_nil name []) (by simpa using hdot)
  rw [String.intercalate_singleton] at hsegments
  have hsplit : ClassName.ofSegments [name] = ⟨[], [name]⟩ := by
    unfold ClassName.ofSegments
    cases h : ClassName.isCapitalised name <;> simp [h]
  rw [ClassName.ofDotted, hsegments, hsplit]
  simp [ClassName.reference]

/-! ## Paths of types in bodies -/

/-- No type called `name` in a body is defined under this text. -/
def Graph.NoPath (g : Graph) (name text : String) : Prop :=
  ∀ c m, g.get? c = some m → m.name = name → m.owner.method.isSome = true →
    text ≠ "::".intercalate (g.path c)

theorem length_le_rubyName (m : Module) : m.name.toList.length ≤ m.rubyName.toList.length := by
  have hle := Text.length_le_capitalize m.name
  unfold Module.rubyName
  split
  · rw [String.toList_append, String.toList_append, List.length_append, List.length_append]
    omega
  · rw [String.toList_append, List.length_append]
    omega
  · exact hle

/-- A type of a body is defined inside of another type. -/
theorem exists_path_of_inBody {d : Dialect} {os : List Origin} (hs : Sound d ⟨g, os, []⟩) {c : ModuleId}
    {m : Module} (hm : g.get? c = some m) (hmethod : m.owner.method.isSome = true) :
    ∃ outer, "::".intercalate (g.path c) = outer ++ "::" ++ m.rubyName := by
  obtain ⟨k, hk⟩ := hs.isSome_owner hm hmethod
  have hlt : k < c := hs.owned c k (by rw [Graph.owner?_eq hm, hk])
  have howner : g.get? k = some _ :=
    Array.getElem?_eq_getElem (Nat.lt_trans hlt (Graph.lt_of_get? hm))
  refine ⟨"::".intercalate (g.path k), ?_⟩
  rw [Graph.path_of_owner hs.owned hm hk, String.intercalate_append_of_ne_nil
    (Graph.path_ne_nil howner) (List.cons_ne_nil _ _), String.intercalate_singleton]

/-- Neither its name nor `Object` is the path of a type in a body. -/
theorem noPath_name {d : Dialect} {os : List Origin} (hs : Sound d ⟨g, os, []⟩) (name : String) :
    g.NoPath name name ∧ g.NoPath name "Object" := by
  constructor
  · intro c m hm hname hmethod heq
    obtain ⟨outer, houter⟩ := exists_path_of_inBody hs hm hmethod
    have hle := length_le_rubyName m
    have hlength := congrArg (fun text => text.toList.length) (heq.trans houter)
    simp only [String.toList_append, List.length_append, hname] at hlength hle
    have hjoin : 0 < "::".toList.length := by decide
    omega
  · intro c m hm hname hmethod heq
    obtain ⟨outer, houter⟩ := exists_path_of_inBody hs hm hmethod
    have hcolon : ':' ∈ "Object".toList := by
      rw [heq, houter]
      simp
    revert hcolon
    decide

/-! ## Names in a unit -/

/-- What becomes of names behind `new`, where these types are known and `locals` knows their paths;
`classes` are the modules of all types of the body. -/
structure Graph.Reads (g : Graph) (classes : List ModuleId) (known : List Known)
    (locals : String → Option (List String)) : Prop where
  /-- Every class that is created is written by its reference. -/
  created : ∀ tokens, Ruby.pieces locals tokens =
    (Ruby.template tokens).map (Ruby.pieceTexts (Ruby.classReference locals))
  /-- In its scope, a type is referred to by the path of its module. If its name is declared once more
  there, then as the same sort of type. -/
  inScope : ∀ front decl behind, known = front ++ ⟨decl, true⟩ :: behind →
    (∀ later ∈ behind, later.decl.name = decl.name → later.decl.isClass = decl.isClass) →
    ∃ c, classes[front.length]? = some c ∧
      Ruby.classReference locals [decl.name] = "::".intercalate (g.path c)
  /-- A name that no type has is written as it is. -/
  unknown : ∀ name : String, '.' ∉ name.toList → (∀ t ∈ known, t.decl.name ≠ name) →
    Ruby.classReference locals [name] = name ∧ g.NoPath name name

/-- Where the names in a part of a unit lead: those in a header to no type of a body, and those in code
to the types of the body in whose scope they stand. -/
def Graph.Resolves (g : Graph) : Part → Prop
  | .header decl => ∃ (c : ModuleId) (m : Module) (cx : Context), g.get? c = some m ∧
      m.name = decl.name ∧ m.superclass = decl.superclass.map cx.resolve ∧
      m.interfaces = decl.interfaces.map cx.resolve ∧
      ∀ name : String, '.' ∉ name.toList →
        (cx.resolveName [name]).reference = (if cx.isTypeParam name then "Object" else name) ∧
        g.NoPath name (cx.resolveName [name]).reference
  | .code types uses => ∃ (k : ModuleId) (m : Module) (cx : Context) (a : Addition),
      g.get? k = some m ∧ m.Has a ∧ List.Forall₂ (g.TypeAt k cx.method) types a.localClasses ∧
      a.exprTexts = uses.map (useText .ruby cx (g.path k)) ∧
      ∀ u ∈ uses, g.Reads a.localClasses u.known
        (cx.knowing (g.path k) (u.known.map Known.decl)).localType?

/-- The modules of types stand where their types do. -/
theorem exists_typeAt {k : ModuleId} {method : Option MethodOwner} {decl : TypeDecl}
    {behind : List TypeDecl} : ∀ {front : List TypeDecl} {classes : List ModuleId},
      List.Forall₂ (g.TypeAt k method) (front ++ decl :: behind) classes →
        ∃ c, classes[front.length]? = some c ∧ g.TypeAt k method decl c
  | [], _, .cons hat _ => ⟨_, rfl, hat⟩
  | _ :: _, _, .cons _ hrest => by
    obtain ⟨c, hc, hat⟩ := exists_typeAt hrest
    exact ⟨c, hc, hat⟩

/-- A type of the body is known by the path of its module. -/
theorem exists_classReference_knowing {k : ModuleId} {front behind types : List TypeDecl}
    {decl : TypeDecl} {classes : List ModuleId}
    (hbefore : front ++ decl :: behind <+: types)
    (hclasses : List.Forall₂ (g.TypeAt k cx.method) types classes)
    (hbehind : ∀ later ∈ behind, later.name = decl.name → later.isClass = decl.isClass) :
    ∃ c, classes[front.length]? = some c ∧ Ruby.classReference
      (cx.knowing (g.path k) (front ++ decl :: behind)).localType? [decl.name] =
        "::".intercalate (g.path c) := by
  obtain ⟨more, rfl⟩ := hbefore
  rw [List.append_assoc] at hclasses
  obtain ⟨c, hc, hat⟩ := exists_typeAt hclasses
  obtain ⟨last, hlast, hname, hlocal⟩ := exists_localType?_knowing cx (g.path k) front decl behind
  refine ⟨c, hc, ?_⟩
  -- A later type of the name may be the one that is found, but it goes by the same path.
  have hdefined : definedName cx.method last = definedName cx.method decl := by
    rcases List.mem_cons.mp hlast with rfl | hlater
    · rfl
    · exact definedName_eq hname (hbehind last hlater hname)
  rw [Ruby.classReference, hlocal, hat.path, hdefined]

/-- Where no type of a body is known, a name means itself, or a type variable. -/
theorem reference_resolveName (hcx : cx.localTypes = []) {name : String} (hdot : '.' ∉ name.toList) :
    (cx.resolveName [name]).reference = if cx.isTypeParam name then "Object" else name := by
  have hlocal : cx.localType? name = none := by simp [Context.localType?, hcx]
  unfold Context.resolveName
  by_cases hparam : cx.isTypeParam name = true
  · simp only [hparam, if_true]
    rfl
  · simp only [hparam, hlocal, String.intercalate_singleton]
    exact reference_ofDotted hdot

theorem resolves_of_holds {os : List Origin} (hs : Sound .ruby ⟨g, os, []⟩) {part : Part}
    (h : g.Holds .ruby part) : g.Resolves part := by
  cases part with
  | header decl =>
    obtain ⟨c, m, cx, hm, hname, hlocal, hsuper, hinterfaces⟩ := h
    refine ⟨c, m, cx, hm, hname, hsuper, hinterfaces, fun name hdot => ?_⟩
    have href := reference_resolveName hlocal hdot
    refine ⟨href, ?_⟩
    rw [href]
    split
    · exact (noPath_name hs name).2
    · exact (noPath_name hs name).1
  | code types uses =>
    obtain ⟨k, m, cx, a, hm, ha, htexts, hbefore, hclasses⟩ := h
    refine ⟨k, m, cx, a, hm, ha, hclasses, htexts, fun u hu => ⟨Ruby.pieces_eq_template _, ?_, ?_⟩⟩
    · intro front decl behind hknown hbehind
      have hfront := hbefore u hu
      rw [hknown, List.map_append, List.map_cons] at hfront ⊢
      simpa using exists_classReference_knowing hfront hclasses (by simpa using hbehind)
    · intro name hdot hunknown
      have hlocal : (cx.knowing (g.path k) (u.known.map Known.decl)).localType? name = none :=
        localType?_knowing_of_ne (by simpa using hunknown)
      refine ⟨?_, (noPath_name hs name).1⟩
      rw [Ruby.classReference, hlocal, String.intercalate_singleton]
      exact reference_ofDotted hdot

/-- **Where names lead.** In the scope of a type of the body, its name behind `new` becomes the path of
its module. Where no type of the name has been declared in the body, and in the headers of all types, the
name becomes no path of a type of that name in a body. -/
theorem resolves_ofTree {tree : Node} {g : Graph} (h : Graph.ofTree .ruby tree = .ok g) :
    ∃ u, Grammar.readUnit .ruby tree = .ok u ∧ ∀ part ∈ u.parts, g.Resolves part := by
  obtain ⟨u, hu, rfl⟩ := ofTree_eq_ok h
  have hs := sound_ofUnit .ruby (Grammar.tidy_of_readUnit hu)
  exact ⟨u, hu, fun part hpart => resolves_of_holds hs (holds_ofUnit .ruby u part hpart)⟩

/-- A class in a method, created in front of its declaration, behind it, in itself and elsewhere. -/
def nest : Node :=
  Phrase.compilationUnit none [] [Phrase.typeDeclaration [] (Phrase.classDeclaration "Bird" [] none []
    [Phrase.method [] "void" "rest" [] (some
      [Phrase.expressionStatement "a = new Nest ( )",
       Phrase.localType (Phrase.typeDeclaration [] (Phrase.classDeclaration "Nest" [] none []
        [Phrase.method [] "Nest" "copy" [] (some [Phrase.returnStatement (some "new Nest ( )")])])),
       Phrase.blockStatement [Phrase.expressionStatement "b = new Nest ( )"]]),
     Phrase.method [] "void" "fly" [] (some [Phrase.expressionStatement "c = new Nest ( )"])])]

/-- Behind the declaration, also in a block, the path is written; everywhere else the name. -/
theorem resolves_ofTree_nest : ∃ g u, Graph.ofTree .ruby nest = .ok g ∧
    Grammar.readUnit .ruby nest = .ok u ∧ u.parts.length = 5 ∧ (∀ part ∈ u.parts, g.Resolves part) ∧
    g.path 1 = ["Bird", "Nest_rest"] ∧
    (List.range g.size).map (fun k => (g.get? k).map fun m => m.methods.map (·.body.exprTexts)) =
      [some [["a = Nest.new()", "b = Bird::Nest_rest.new()"], ["c = Nest.new()"]],
       some [["Nest.new()"]]] := by
  have hparts : (Grammar.readUnit .ruby nest).toOption.map (·.parts.length) = some 5 := by
    decide +kernel
  have htexts : (Graph.ofTree .ruby nest).toOption.map (fun g => (g.path 1,
      (List.range g.size).map fun k => (g.get? k).map fun m => m.methods.map (·.body.exprTexts))) =
      some (["Bird", "Nest_rest"],
        [some [["a = Nest.new()", "b = Bird::Nest_rest.new()"], ["c = Nest.new()"]],
         some [["Nest.new()"]]]) := by
    decide +kernel
  cases h : Graph.ofTree .ruby nest with
  | error e => rw [h] at htexts; cases htexts
  | ok g =>
    obtain ⟨u, hu, hresolves⟩ := resolves_ofTree h
    rw [h] at htexts
    rw [hu] at hparts
    obtain ⟨hpath, hmethods⟩ := Prod.mk.inj (Option.some.inj htexts)
    exact ⟨g, u, rfl, hu, Option.some.inj hparts, hresolves, hpath, hmethods⟩

/-- Two classes in a method, the second of which extends the first. -/
def heirs : Node :=
  Phrase.compilationUnit none [] [Phrase.typeDeclaration [] (Phrase.classDeclaration "A" [] none []
    [Phrase.method [] "void" "run" [] (some
      [Phrase.localType (Phrase.typeDeclaration [] (Phrase.classDeclaration "B" [] none [] [])),
       Phrase.localType (Phrase.typeDeclaration [] (Phrase.classDeclaration "C" [] (some "B") [] []))])])]

/-- The second class is in the scope of the first one, but does not refer to it by its path. -/
theorem superclass_heirs :
    (Graph.ofTree .ruby heirs).toOption.map (fun g => ("::".intercalate (g.path 1),
      (g.get? 2).bind fun m => m.superclass.map JavaType.reference)) = some ("A::B_run", some "B") ∧
    (convert {} heirs).toOption =
      some "class A\n  class B_run\n  end\n\n  class C_run < B\n  end\n\n  def run\n  end\nend\n" := by
  decide +kernel

end

end Rubify.Program
