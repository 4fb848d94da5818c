import Rubify.Convert
import Rubify.Phrase.Declaration
import Rubify.Proofs.Comments.Grammar
import Rubify.Proofs.Program.Forest
import Mathlib.Data.List.Basic

/-!
# No comment is lost or doubled

Declaring what was read puts every comment into the graph: with the module, field, constant, method,
constructor or static block it stands in front of, as a statement of the body it stands in, or loose
in the body of its type. Together with `perm_commentTexts_readUnit` this makes the graph of a tree
an account of the tree's comments.

Fix a text `t`. `Moves t g g' kept texts` says how one step from `g` to `g'` treats its occurrences
in `texts`: all of them are in `g'` afterwards, or among those `kept` for a later step. A lowered
body keeps the comments of its statements until its member is made; a stray semicolon keeps its own,
which the type's module had from the start. Each step of declaring gets one such lemma
(`moves_lower`, `moves_declareMember`, `moves_declareType`, ...), by the recursion of the
definitions, and `Moves.trans` adds them up.

Headlines:
* **`moves_declareType`**: a declared type brings its comments into the graph, and no others.
* **`perm_commentTexts_ofTree`**: the comments of a tree's graph are those of the tree, each as
  often.
-/

namespace Rubify.Program

open Grammar (Dialect)
open Syntax

variable {t : String}

/-! ## Modules -/

section

variable (m : Module)

theorem count_addField (f : Field) : (m.addField f).commentTexts.count t =
    m.commentTexts.count t + f.comments.count t := by
  simp [Module.commentTexts, Module.addField]
  omega

theorem count_addStaticField (f : Field) : (m.addStaticField f).commentTexts.count t =
    m.commentTexts.count t + f.comments.count t := by
  simp [Module.commentTexts, Module.addStaticField]
  omega

theorem count_addConstant (c : Constant) : (m.addConstant c).commentTexts.count t =
    m.commentTexts.count t + c.comments.count t := by
  simp [Module.commentTexts, Module.addConstant]
  omega

theorem count_addStaticBlock (b : StaticBlock) : (m.addStaticBlock b).commentTexts.count t =
    m.commentTexts.count t + b.commentTexts.count t := by
  simp [Module.commentTexts, Module.addStaticBlock]
  omega

theorem count_addMethod (method : Method) : (m.addMethod method).commentTexts.count t =
    m.commentTexts.count t + method.commentTexts.count t := by
  simp [Module.commentTexts, Module.addMethod]
  omega

theorem count_addConstructor (c : Constructor) : (m.addConstructor c).commentTexts.count t =
    m.commentTexts.count t + c.commentTexts.count t := by
  simp [Module.commentTexts, Module.addConstructor]
  omega

end

/-- Adding things one after another adds the comments of all. -/
theorem count_foldl {α : Type} {add : Module → α → Module} {texts : α → List String}
    (h : ∀ m a, (add m a).commentTexts.count t = m.commentTexts.count t + (texts a).count t) :
    ∀ (items : List α) (m : Module), (items.foldl add m).commentTexts.count t =
      m.commentTexts.count t + (items.flatMap texts).count t
  | [], m => rfl
  | a :: rest, m => by
    rw [List.foldl_cons, count_foldl h rest, h, List.flatMap_cons, List.count_append, Nat.add_assoc]

/-- The first of several declarators has the comments. -/
theorem flatMap_describe {α : Type} {f : List String → Declarator → α} {texts : α → List String}
    (h : ∀ comments v, texts (f comments v) = comments) (comments : List String) :
    ∀ declarators : List Declarator,
      (describe f comments declarators).flatMap texts = declaratorTexts comments declarators
  | [] => rfl
  | v :: rest => by
    rw [describe, List.flatMap_cons, h, List.flatMap_map]
    simp [h, declaratorTexts]

theorem count_addFields (m : Module) (d : Dialect) (cx : Context) (comments : List String)
    (static final : Bool) (declarators : List Declarator) :
    (m.addFields d cx comments static final declarators).commentTexts.count t =
      m.commentTexts.count t + (declaratorTexts comments declarators).count t := by
  unfold Module.addFields
  split
  · rw [count_foldl count_addConstant, flatMap_describe fun _ _ => rfl]
  · split
    · rw [count_foldl count_addStaticField, flatMap_describe fun _ _ => rfl]
    · rw [count_foldl count_addField, flatMap_describe fun _ _ => rfl]

theorem commentTexts_ofInvocation (params : List Param) (invocation : Invocation) :
    (Constructor.ofInvocation params invocation).commentTexts = [] := rfl

theorem count_ensureConstructor (m : Module) :
    m.ensureConstructor.commentTexts.count t = m.commentTexts.count t := by
  unfold Module.ensureConstructor
  split
  · rfl
  · rw [count_addConstructor]
    rfl

/-! ## Graphs -/

/-- From `g` to `g'` the graph grows, and each occurrence of `t` in `texts` comes into it or is
`kept`. -/
structure Moves (t : String) (g g' : Graph) (kept texts : List String) : Prop where
  size : g.size ≤ g'.size
  count : g'.commentTexts.count t + kept.count t = g.commentTexts.count t + texts.count t

theorem Moves.lt {g g' : Graph} {kept texts : List String} (h : Moves t g g' kept texts)
    {id : ModuleId} (hid : id < g.size) : id < g'.size := Nat.lt_of_lt_of_le hid h.size

theorem Moves.refl (g : Graph) (texts : List String) : Moves t g g texts texts :=
  ⟨Nat.le_refl _, rfl⟩

theorem Moves.trans {g g₁ g₂ : Graph} {kept kept' texts texts' : List String}
    (h : Moves t g g₁ kept texts) (h' : Moves t g₁ g₂ kept' texts') :
    Moves t g g₂ (kept ++ kept') (texts ++ texts') := by
  refine ⟨Nat.le_trans h.size h'.size, ?_⟩
  have := h.count
  have := h'.count
  rw [List.count_append, List.count_append]
  omega

/-- A changed module adds what the change adds, where there is one. -/
theorem count_flatMap_modify {f : Module → Module} {k : Nat}
    (hf : ∀ m, (f m).commentTexts.count t = m.commentTexts.count t + k) :
    ∀ (modules : List Module) (id : Nat),
      ((modules.modify id f).flatMap Module.commentTexts).count t =
        (modules.flatMap Module.commentTexts).count t + if id < modules.length then k else 0
  | [], _ => by simp
  | m :: rest, 0 => by
    simp [hf]
    omega
  | m :: rest, id + 1 => by
    have := count_flatMap_modify hf rest id
    simp [this]
    omega

/-- Changing a module that is there brings in what the change adds. -/
theorem moves_modify {g : Graph} {id : ModuleId} {f : Module → Module} {texts : List String}
    (hid : id < g.size)
    (hf : ∀ m, (f m).commentTexts.count t = m.commentTexts.count t + texts.count t) :
    Moves t g (g.modify id f) [] texts := by
  refine ⟨Nat.le_of_eq (Graph.size_modify g id f).symm, ?_⟩
  have hlen : id < g.modules.toList.length := by simpa [Graph.size] using hid
  have := count_flatMap_modify hf g.modules.toList id
  rw [if_pos hlen] at this
  simp only [Graph.modify, Graph.commentTexts, Array.toList_modify, List.count_append, this,
    List.count_nil]
  omega

/-- A change that adds no comment needs no module to be there. -/
theorem moves_modify_nil {g : Graph} {id : ModuleId} {f : Module → Module}
    (hf : ∀ m, (f m).commentTexts.count t = m.commentTexts.count t) :
    Moves t g (g.modify id f) [] [] := by
  refine ⟨Nat.le_of_eq (Graph.size_modify g id f).symm, ?_⟩
  have := count_flatMap_modify (k := 0) hf g.modules.toList id
  simp only [Graph.modify, Graph.commentTexts, Array.toList_modify, List.count_append, this,
    ite_self, Nat.add_zero]

/-! ## Declarations -/

/-- What a step kept can be put into a module right behind it. -/
theorem Moves.store {g g' : Graph} {kept texts : List String} (h : Moves t g g' kept texts)
    {id : ModuleId} (hid : id < g.size) {f : Module → Module} (comments : List String)
    (hf : ∀ m, (f m).commentTexts.count t =
      m.commentTexts.count t + (comments ++ kept).count t) :
    Moves t g (g'.modify id f) [] (comments ++ texts) := by
  have h' := moves_modify (h.lt hid) hf
  refine ⟨Nat.le_trans h.size h'.size, ?_⟩
  have := h.count
  have := h'.count
  simp only [List.count_append, List.count_nil] at *
  omega

theorem Moves.single {g g' : Graph} {kept texts : List String} (h : Moves t g g' kept texts) :
    Moves t g g' (kept ++ []) texts := by
  rwa [List.append_nil]

theorem Moves.trans_nil {g g₁ g₂ : Graph} {texts : List String} (h : Moves t g g₁ [] texts)
    (h' : Moves t g₁ g₂ [] []) : Moves t g g₂ [] texts := by
  simpa using h.trans h'

/-- A new module brings its comments along and has a place in the graph. -/
theorem moves_of_alloc {g g₁ : Graph} {m : Module} {id : ModuleId} (h : g.alloc m = (id, g₁)) :
    id < g₁.size ∧ Moves t g g₁ [] m.commentTexts := by
  cases h
  constructor
  · simp [Graph.size]
  · constructor
    · simp [Graph.size]
    · simp [Graph.commentTexts]
      omega

/-- A module is made with the comments that its members will leave to it: together the two steps
store `all`. -/
theorem Moves.complete {g g₁ g₂ : Graph} {made kept added all : List String}
    (h : Moves t g g₁ [] made) (h' : Moves t g₁ g₂ kept added)
    (hall : made.count t + added.count t = kept.count t + all.count t) :
    Moves t g g₂ [] all := by
  refine ⟨Nat.le_trans h.size h'.size, ?_⟩
  have := h.count
  have := h'.count
  simp only [List.count_nil] at *
  omega

/-- The methods that every enum has bring no comment. -/
theorem count_enumMethods (names : List String) (m : Module) :
    ((enumMethods names).foldl Module.addMethod m).commentTexts.count t =
      m.commentTexts.count t := by
  rw [count_foldl count_addMethod]
  rfl

theorem commentTexts_localVariables (d : Dialect) (cx : Context) (declarators : List Declarator) :
    Flow.commentTexts (declarators.map (localVariable d cx)) = [] := by
  induction declarators with
  | nil => rfl
  | cons v rest ih =>
    rw [List.map_cons, Flow.commentTexts, ih]
    rfl

theorem moves_addEnumConstant {g : Graph} (outer : Option ModuleId) {enum : ModuleId}
    (hid : enum < g.size) (c : Constant) :
    Moves t g (g.addEnumConstant outer enum c) [] c.comments := by
  unfold Graph.addEnumConstant
  cases outer with
  | none => exact moves_modify hid fun m => count_addConstant m c
  | some outer =>
    refine Moves.trans (moves_modify_nil fun m => count_addConstant m _) (moves_modify ?_ fun m =>
      count_addConstant m c)
    rwa [Graph.size_modify]

section

variable (d : Dialect)

-- A module is changed only behind its making, and graphs only grow: that its place is in the graph
-- is carried along as `hid`.
mutual

/-- **Declaring a type** stores the comments in front of it and those inside. -/
theorem moves_declareType (cx : Context) (comments : List String) (g : Graph) :
    ∀ decl : TypeDecl,
      Moves t g (declareType d cx comments g decl).2 [] (comments ++ decl.commentTexts)
  | .classType name static generics superclass interfaces ⟨opening, members, closing⟩ => by
    rw [declareType]
    split
    rename_i id g₁ hg
    obtain ⟨hid, h₁⟩ := moves_of_alloc (t := t) hg
    have h := moves_declareMembers (cx.enterModule g.size generics) g₁ hid members
    refine Moves.trans_nil (h₁.complete h ?_) (moves_modify_nil count_ensureConstructor)
    simp [Module.commentTexts, looseComments, TypeDecl.commentTexts, memberBodyTexts]
    omega
  | .enumType name interfaces constants ⟨opening, members, closing⟩ => by
    rw [declareType]
    split
    rename_i id g₁ hg
    obtain ⟨hid, h₁⟩ := moves_of_alloc (t := t) hg
    have hc := moves_declareConstants cx.module (cx.enterModule g.size []) g₁ hid constants
    have h := hc.trans (moves_declareMembers (cx.enterModule g.size []) _ (hc.lt hid) members)
    refine ((h₁.complete h ?_).trans_nil (moves_modify_nil (count_enumMethods _))).trans_nil
      (moves_modify_nil count_ensureConstructor)
    simp [Module.commentTexts, looseComments, TypeDecl.commentTexts, memberBodyTexts]
    omega
  | .interfaceType name generics parents ⟨opening, members, closing⟩ => by
    rw [declareType]
    split
    rename_i id g₁ hg
    obtain ⟨hid, h₁⟩ := moves_of_alloc (t := t) hg
    refine h₁.complete (moves_declareInterfaceMembers (cx.enterModule g.size generics) g₁ hid
      members) ?_
    simp [Module.commentTexts, looseComments, TypeDecl.commentTexts]
    omega
  | .annotationType name bodyComments => by
    rw [declareType]
    refine (moves_of_alloc rfl).2.complete (.refl _ []) ?_
    simp [Module.commentTexts, TypeDecl.commentTexts]

theorem moves_declareMembers (cx : Context) {id : ModuleId} (g : Graph) (hid : id < g.size) :
    ∀ members : List Member, Moves t g (declareMembers d cx id g members)
      (members.flatMap Member.looseTexts) (memberTexts members)
  | [] => .refl g []
  | m :: rest => by
    have h := moves_declareMember cx g hid m
    rw [declareMembers]
    exact h.trans (moves_declareMembers cx _ (h.lt hid) rest)

theorem moves_declareMember (cx : Context) {id : ModuleId} (g : Graph) (hid : id < g.size) :
    ∀ m : Member, Moves t g (declareMember d cx id g m) m.looseTexts m.commentTexts
  | .empty comments => by
    rw [declareMember]
    exact .refl g comments
  | .initializer comments body => by
    rw [declareMember]
    have h := moves_lowerAll ⟨g, cx.enterMethod "static" true [], []⟩ body
    exact h.store hid comments fun m => count_addStaticBlock m _
  | .fields comments static final declarators => by
    rw [declareMember]
    exact moves_modify hid fun m => count_addFields m d cx comments static final declarators
  | .method signature static synchronized body => by
    rw [declareMember]
    have h := moves_lowerMethodBody
      ⟨g, cx.enterMethod signature.name static signature.generics, []⟩ body
    exact h.store hid signature.comments fun m => count_addMethod m _
  | .constructor comments generics params invocation body => by
    rw [declareMember]
    have h := moves_lowerAll ⟨g, cx.enterMethod "initialize" false generics, []⟩ body
    exact h.store hid comments fun m => count_addConstructor m _
  | .type comments decl => by
    rw [declareMember]
    exact moves_declareType cx comments g decl

theorem moves_declareConstants (outer : Option ModuleId) (cx : Context) {id : ModuleId}
    (g : Graph) (hid : id < g.size) : ∀ constants : List (EnumConstant Member),
    Moves t g (declareConstants d outer cx id g constants) [] (constantTexts constants)
  | [] => .refl g []
  | ⟨comments, name, arguments, body⟩ :: rest => by
    rw [declareConstants]
    have h := moves_declareConstantBody cx id name g body
    split
    rename_i receiver g₁ hg
    rw [hg] at h
    have h := h.trans (moves_addEnumConstant outer (h.lt hid)
      (enumConstant d (g₁.rubyName receiver) name (arguments.map (exprText d cx)) comments))
    refine Moves.complete h (moves_declareConstants outer cx _ (h.lt hid) rest) ?_
    simp [constantTexts, enumConstant]
    omega

theorem moves_declareConstantBody (cx : Context) (id : ModuleId) (name : String) (g : Graph) :
    ∀ body : Option (TypeBody Member),
      Moves t g (declareConstantBody d cx id name g body).2 [] (constantBodyTexts body)
  | none => .refl g []
  | some ⟨opening, members, closing⟩ => by
    rw [declareConstantBody]
    split
    rename_i body g₁ hg
    obtain ⟨hid, h₁⟩ := moves_of_alloc (t := t) hg
    refine h₁.complete (moves_declareMembers (cx.enterModule body []) g₁ hid members) ?_
    simp [Module.commentTexts, constantBody, looseComments, constantBodyTexts, memberBodyTexts,
      commentTexts_ofInvocation]
    omega

theorem moves_declareInterfaceMembers (cx : Context) {id : ModuleId} (g : Graph)
    (hid : id < g.size) : ∀ members : List InterfaceMember,
    Moves t g (declareInterfaceMembers d cx id g members)
      (members.flatMap InterfaceMember.looseTexts) (interfaceMemberTexts members)
  | [] => .refl g []
  | m :: rest => by
    have h := moves_declareInterfaceMember cx g hid m
    rw [declareInterfaceMembers]
    exact h.trans (moves_declareInterfaceMembers cx _ (h.lt hid) rest)

theorem moves_declareInterfaceMember (cx : Context) {id : ModuleId} (g : Graph)
    (hid : id < g.size) : ∀ m : InterfaceMember,
    Moves t g (declareInterfaceMember d cx id g m) m.looseTexts m.commentTexts
  | .empty comments => by
    rw [declareInterfaceMember]
    exact .refl g comments
  | .constants comments declarators => by
    rw [declareInterfaceMember]
    refine moves_modify hid fun m => ?_
    rw [count_foldl count_addConstant, flatMap_describe fun _ _ => rfl]
    rfl
  | .method signature => by
    rw [declareInterfaceMember]
    refine moves_modify hid fun m => ?_
    rw [count_addMethod]
    simp [Method.commentTexts, methodOf, MethodBody.commentTexts, InterfaceMember.commentTexts]
  | .type comments decl => by
    rw [declareInterfaceMember]
    exact moves_declareType cx comments g decl

theorem moves_lowerMethodBody (s : BodyState) : ∀ body : Syntax.MethodBody Statement,
    Moves t s.graph (lowerMethodBody d s body).2.graph (lowerMethodBody d s body).1.commentTexts
      (methodBodyTexts body)
  | .block body => by
    rw [lowerMethodBody]
    exact moves_lowerAll s body
  | .abstract => by
    rw [lowerMethodBody]
    exact .refl s.graph []
  | .native => by
    rw [lowerMethodBody]
    exact .refl s.graph []

theorem moves_lowerAll (s : BodyState) : ∀ body : List Statement,
    Moves t s.graph (lowerAll d s body).2.graph (Flow.commentTexts (lowerAll d s body).1)
      (statementTexts body)
  | [] => by
    rw [lowerAll]
    exact .refl s.graph []
  | st :: rest => by
    rw [lowerAll]
    have h := (moves_lower s st).trans (moves_lowerAll (lower d s st).2 rest)
    rw [← Flow.commentTexts_append] at h
    exact h

theorem moves_lower (s : BodyState) : ∀ st : Statement,
    Moves t s.graph (lower d s st).2.graph (Flow.commentTexts (lower d s st).1) st.commentTexts
  | .comment text => by
    rw [lower]
    exact .refl s.graph [text]
  | .variables declarators => by
    rw [lower, commentTexts_localVariables]
    exact .refl s.graph []
  | .type comments decl => by
    rw [lower]
    exact moves_declareType s.cx comments s.graph decl
  | .block body => by
    rw [lower]
    exact (moves_lowerAll s body).single
  | .ifThen condition thenBranch elseBranch => by
    rw [lower]
    exact ((moves_lowerAll s thenBranch).trans
      (moves_lowerElse (lowerAll d s thenBranch).2 elseBranch)).single
  | .loop condition body => by
    rw [lower]
    exact (moves_lowerAll s body).single
  | .labeled label body => by
    rw [lower]
    exact (moves_lowerAll s body).single
  | .switch value groups => by
    rw [lower]
    exact (moves_lowerGroups s groups).single
  | .expr _ | .leave _ | .return _ | .throw _ | .invoke _ => by
    rw [lower]
    exact .refl s.graph []

theorem moves_lowerElse (s : BodyState) : ∀ body : Option (List Statement),
    Moves t s.graph (lowerElse d s body).2.graph (Flow.elseCommentTexts (lowerElse d s body).1)
      (elseTexts body)
  | none => by
    rw [lowerElse]
    exact .refl s.graph []
  | some body => by
    rw [lowerElse]
    exact moves_lowerAll s body

theorem moves_lowerGroups (s : BodyState) : ∀ groups : List (SwitchGroup Statement),
    Moves t s.graph (lowerGroups d s groups).2.graph
      (Flow.branchCommentTexts (lowerGroups d s groups).1) (groupTexts groups)
  | [] => by
    rw [lowerGroups]
    exact .refl s.graph []
  | ⟨labels, body⟩ :: rest => by
    rw [lowerGroups]
    exact (moves_lowerAll s body).trans (moves_lowerGroups (lowerAll d s body).2 rest)

end

end

/-! ## Compilation units -/

theorem moves_declareTypes (d : Dialect) (g : Graph) : ∀ types : List (List String × TypeDecl),
    Moves t g (declareTypes d g types) [] (types.flatMap declarationTexts)
  | [] => .refl g []
  | (comments, decl) :: rest => by
    rw [declareTypes, List.flatMap_cons]
    exact (moves_declareType d .topLevel comments g decl).trans (moves_declareTypes d _ rest)

/-- Declaring a unit keeps each comment, as often as it was read. -/
theorem perm_commentTexts_ofUnit (d : Dialect) (u : CompilationUnit) :
    (Graph.ofUnit d u).commentTexts.Perm u.commentTexts := by
  rw [List.perm_iff_count]
  intro t
  have h := (moves_declareTypes (t := t) d
    { package := (u.package.map Text.segments).getD []
      imports := u.imports
      comments := u.comments ++ u.trailing } u.types).count
  simp only [Graph.commentTexts, List.count_append, List.flatMap_nil, List.count_nil] at h
  simp only [Graph.ofUnit, CompilationUnit.commentTexts, CompilationUnit.leadingTexts,
    Graph.commentTexts, List.count_append]
  omega

/-- **The graph of a tree holds the comments of the tree**, each as often as it stands there. -/
theorem perm_commentTexts_ofTree {d : Dialect} {tree : Node} {g : Graph}
    (h : Graph.ofTree d tree = .ok g) : g.commentTexts.Perm tree.commentTexts := by
  unfold Graph.ofTree at h
  cases hu : Grammar.readUnit d tree with
  | error e => rw [hu] at h; cases h
  | ok u =>
    rw [hu] at h
    cases h
    exact (perm_commentTexts_ofUnit d u).trans (Grammar.perm_commentTexts_readUnit hu)

/-- A class with comments in front of everything, before two fields of one declaration, inside a
method, at a stray semicolon and behind everything; one text stands twice. -/
def remarks : Node :=
  Phrase.node "compilationUnit" [Phrase.comment "// unit",
    Phrase.node "typeDeclaration" [Phrase.typeDeclaration [] (Phrase.classDeclaration "K" [] none []
      [Phrase.comment "// fields", Phrase.field [] "int" [("x", none), ("y", none)],
        Phrase.method [] "void" "run" [] (some [Phrase.comment "// step"]),
        Phrase.node "classBodyDeclaration" [Phrase.comment "// stray", Phrase.token ";"]])],
    Phrase.comment "// unit"]

theorem perm_commentTexts_ofTree_remarks : ∃ g, Graph.ofTree .ruby remarks = .ok g ∧
    g.commentTexts.Perm ["// unit", "// fields", "// step", "// stray", "// unit"] := by
  have htexts : remarks.commentTexts =
      ["// unit", "// fields", "// step", "// stray", "// unit"] := by decide +kernel
  have hok : (Graph.ofTree .ruby remarks).toOption.isSome := by decide +kernel
  cases h : Graph.ofTree .ruby remarks with
  | error e => rw [h] at hok; cases hok
  | ok g =>
    rw [← htexts]
    exact ⟨g, rfl, perm_commentTexts_ofTree h⟩

end Rubify.Program
