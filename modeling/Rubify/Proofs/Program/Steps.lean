import Rubify.Program.Declare
import Rubify.Proofs.Program.Declared
import Mathlib.Logic.Relation

/-!
# Building a graph step by step

Declaring a unit is a long mutual recursion, but all it ever does to the graph is to make a module,
to add something to a module that is being declared, or to finish one. `Step` says so once: a
`Build` is a graph with a stack of what is open, types and bodies in turn, and each step is one of
nine. Facts about built graphs are then proved for one step at a time.

* A **type** is opened where the stack says, has things added to it, and is closed; a class or an enum
  gets its constructor then. A type closed inside a body is listed there.
* A **body** is opened in a type and closed by the member it belongs to, which takes the list.
* A constant of an **enum** can have a body, which is opened like a type; and it is added once more,
  as a reference, to the module around the enum.

What may be added depends on what the module is made for (`Origin.Allows`).

Headline:
* **`run_declareTypes`**: declaring the types of a tidy unit is a run of such steps, which makes one
  module for each of the unit's origins, in order.
-/

namespace Rubify.Program

open Grammar (Dialect)
open Syntax

/-! ## Additions -/

/-- Something that can be added to a module. -/
inductive Addition
  | field (f : Field)
  | staticField (f : Field)
  | constant (c : Constant)
  | block (b : StaticBlock)
  | method (m : Method)
  | constructor (c : Constructor)

/-- The module with one more of something. -/
def Module.add (m : Module) : Addition → Module
  | .field f => m.addField f
  | .staticField f => m.addStaticField f
  | .constant c => m.addConstant c
  | .block b => m.addStaticBlock b
  | .method method => m.addMethod method
  | .constructor c => m.addConstructor c

/-- The types declared in the body of what is added. -/
def Addition.localClasses : Addition → List ModuleId
  | .method m => m.localClasses
  | .constructor c => c.localClasses
  | .block b => b.localClasses
  | .field _ | .staticField _ | .constant _ => []

/-- Whether the statements of a method are there, if it has any. -/
def MethodBody.isPresent : MethodBody → Bool
  | .pending body => !body.isTaken
  | .abstract | .native | .synthesized _ => true

/-- Only the last parameter can be variadic, and its type is an array. -/
structure VariadicLast (params : List Param) : Prop where
  last : ∀ p ∈ params.dropLast, p.variadic = false
  array : ∀ p ∈ params, p.variadic = true → ∃ element, p.type = .array element

/-- What may be added to a module: to an interface only constants and abstract methods. Bodies are
there, and parameter lists are tidy. -/
def Origin.Allows (o : Origin) : Addition → Prop
  | .field _ | .staticField _ => o.isInterface = false
  | .constant _ => True
  | .block b => o.isInterface = false ∧ b.body.isTaken = false
  | .method m => m.body.isPresent = true ∧ VariadicLast m.params ∧
      (o.isInterface = true → m.isAbstract = true ∧ m.static = false)
  | .constructor c => o.isInterface = false ∧ c.body.isTaken = false ∧ VariadicLast c.params

/-- A module to which nothing has been added. -/
structure Module.IsEmpty (m : Module) : Prop where
  fields : m.fields = []
  staticFields : m.staticFields = []
  constants : m.constants = []
  constructors : m.constructors = []
  methods : m.methods = []
  staticBlocks : m.staticBlocks = []
  staticOrder : m.staticOrder = []

/-! ## Steps -/

/-- Something that is being declared. -/
inductive Frame
  /-- The module `id`. -/
  | type (id : ModuleId) (origin : Origin)
  /-- A body in the module below, with the types declared in it so far. -/
  | body (method : MethodOwner) (classes : List ModuleId)

/-- The owner of what is declared inside the frames, the innermost of which comes first. -/
def ownerOf : List Frame → Owner
  | [] => {}
  | .type id _ :: _ => ⟨some id, none⟩
  | .body method _ :: rest => ⟨(ownerOf rest).module, some method⟩

/-- The frames behind the declaration of a type: a body lists it. -/
def listed (id : ModuleId) : List Frame → List Frame
  | .body method classes :: rest => .body method (classes ++ [id]) :: rest
  | frames => frames

/-- A graph that is being built: what each of its modules is made for, and what is open. -/
structure Build where
  graph : Graph
  origins : List Origin
  stack : List Frame

/-- One step of building. -/
inductive Step (d : Dialect) : Build → Build → Prop
  | openType {g : Graph} {os : List Origin} {fs : List Frame} (cx : Context) (decl : DeclKind)
      (static : Bool) (m : Module) (hcx : cx.owner = ownerOf fs)
      (hkind : m.kind = cx.kindOf decl static) (howner : m.owner = cx.owner) (hempty : m.IsEmpty) :
      Step d ⟨g, os, fs⟩ ⟨(g.alloc m).2, os ++ [.type decl cx.method.isSome],
        .type g.size (.type decl cx.method.isSome) :: fs⟩
  | openConstant {g : Graph} {os : List Origin} {fs : List Frame} {enum : ModuleId} {o : Origin}
      (name : String) (body : TypeBody Member) (ho : o.isEnum = true) :
      Step d ⟨g, os, .type enum o :: fs⟩ ⟨(g.alloc (constantBody d g enum name body)).2,
        os ++ [.constantBody], .type g.size .constantBody :: .type enum o :: fs⟩
  | openBody {g : Graph} {os : List Origin} {fs : List Frame} {id : ModuleId} {o : Origin}
      (method : MethodOwner) :
      Step d ⟨g, os, .type id o :: fs⟩ ⟨g, os, .body method [] :: .type id o :: fs⟩
  | add {g : Graph} {os : List Origin} {fs : List Frame} {id : ModuleId} {o : Origin}
      (a : Addition) (ha : o.Allows a) (hl : a.localClasses = []) :
      Step d ⟨g, os, .type id o :: fs⟩ ⟨g.modify id (·.add a), os, .type id o :: fs⟩
  | closeBody {g : Graph} {os : List Origin} {fs : List Frame} {id : ModuleId} {o : Origin}
      {method : MethodOwner} (a : Addition) (ha : o.Allows a) :
      Step d ⟨g, os, .body method a.localClasses :: .type id o :: fs⟩
        ⟨g.modify id (·.add a), os, .type id o :: fs⟩
  | refer {g : Graph} {os : List Origin} {fs : List Frame} {id outer : ModuleId} {o : Origin}
      (c : Constant) (houter : (ownerOf fs).module = some outer) :
      Step d ⟨g, os, .type id o :: fs⟩ ⟨g.modify outer (·.addConstant c), os, .type id o :: fs⟩
  | closeType {g : Graph} {os : List Origin} {fs : List Frame} {id : ModuleId} {o : Origin}
      (ho : o.isInterface = false) (hc : o ≠ .constantBody) :
      Step d ⟨g, os, .type id o :: fs⟩ ⟨g.modify id Module.ensureConstructor, os, listed id fs⟩
  | closeInterface {g : Graph} {os : List Origin} {fs : List Frame} {id : ModuleId} {o : Origin}
      (ho : o.isInterface = true) :
      Step d ⟨g, os, .type id o :: fs⟩ ⟨g, os, listed id fs⟩
  | closeConstant {g : Graph} {os : List Origin} {fs : List Frame} {id enum : ModuleId} {o : Origin} :
      Step d ⟨g, os, .type id .constantBody :: .type enum o :: fs⟩ ⟨g, os, .type enum o :: fs⟩

/-- Any number of steps. -/
abbrev Run (d : Dialect) : Build → Build → Prop :=
  Relation.ReflTransGen (Step d)

/-! ## Declaring is a run -/

section

variable {d : Dialect} {g : Graph} {os : List Origin} {fs : List Frame} {id : ModuleId} {o : Origin}

theorem modify_modify (g : Graph) (id : ModuleId) (f h : Module → Module) :
    (g.modify id f).modify id h = g.modify id fun m => h (f m) := by
  simp only [Graph.modify, Graph.mk.injEq, and_self, and_true]
  apply Array.ext
  · simp
  · intro i h₁ h₂
    simp only [Array.getElem_modify]
    split <;> rfl

theorem modify_id (g : Graph) (id : ModuleId) : g.modify id (fun m => m) = g := by
  have : g.modules.modify id (fun m => m) = g.modules := by
    apply Array.ext
    · simp
    · intro i h₁ h₂
      simp [Array.getElem_modify]
  rw [Graph.modify, this]

/-- Adding several things of a sort is adding them one after another. -/
theorem run_adds {α : Type} {addOne : Module → α → Module} (sort : α → Addition)
    (hsort : ∀ m a, m.add (sort a) = addOne m a) (items : List α)
    (ha : ∀ a ∈ items, o.Allows (sort a) ∧ (sort a).localClasses = []) :
    Run d ⟨g, os, .type id o :: fs⟩
      ⟨g.modify id fun m => items.foldl addOne m, os, .type id o :: fs⟩ := by
  induction items generalizing g with
  | nil =>
    simp only [List.foldl_nil, modify_id]
    exact .refl
  | cons a rest ih =>
    have first := ha a List.mem_cons_self
    have more := ih (g := g.modify id (·.add (sort a))) fun b hb =>
      ha b (List.mem_cons_of_mem a hb)
    rw [modify_modify] at more
    simp only [List.foldl_cons, ← hsort _ a]
    exact .head (.add (sort a) first.1 first.2) more

theorem run_addConstants (constants : List Constant) : Run d ⟨g, os, .type id o :: fs⟩
    ⟨g.modify id fun m => constants.foldl .addConstant m, os, .type id o :: fs⟩ :=
  run_adds .constant (fun _ _ => rfl) constants fun _ _ => ⟨trivial, rfl⟩

theorem run_addFields (ho : o.isInterface = false) (cx : Context) (comments : List String)
    (static final : Bool) (declarators : List Declarator) : Run d ⟨g, os, .type id o :: fs⟩
    ⟨g.modify id (·.addFields d cx comments static final declarators), os, .type id o :: fs⟩ := by
  unfold Module.addFields
  cases static with
  | false => exact run_adds .field (fun _ _ => rfl) _ fun _ _ => ⟨ho, rfl⟩
  | true =>
    cases final with
    | true => exact run_addConstants _
    | false => exact run_adds .staticField (fun _ _ => rfl) _ fun _ _ => ⟨ho, rfl⟩

/-- An enum constant is added to the enum, and before that to the module around it. -/
theorem run_addEnumConstant {outer : Option ModuleId} (houter : (ownerOf fs).module = outer)
    (c : Constant) : Run d ⟨g, os, .type id o :: fs⟩
      ⟨g.addEnumConstant outer id c, os, .type id o :: fs⟩ := by
  unfold Graph.addEnumConstant
  cases outer with
  | none => exact .single (.add (.constant c) trivial rfl)
  | some outer => exact .head (.refer _ houter) (.single (.add (.constant c) trivial rfl))

theorem variadicLast_nil : VariadicLast [] := ⟨by simp, by simp⟩

theorem exists_arrays_eq (t : JavaType) : ∀ dims, 0 < dims →
    ∃ element, JavaType.arrays dims t = .array element
  | 1, _ => ⟨t, rfl⟩
  | dims + 2, _ => exists_arrays_eq (.array t) (dims + 1) (Nat.succ_pos _)

/-- Parameters with their types are as tidy as they were read. -/
theorem variadicLast_map (cx : Context) {params : List Parameter}
    (h : Syntax.VariadicLast params) : VariadicLast (params.map (paramOf cx)) := by
  constructor
  · intro p hp
    rw [← List.map_dropLast] at hp
    obtain ⟨q, hq, rfl⟩ := List.mem_map.mp hp
    exact h.last q hq
  · intro p hp hv
    obtain ⟨q, hq, rfl⟩ := List.mem_map.mp hp
    exact exists_arrays_eq _ _ (h.array q hq hv)

/-- The methods that every enum has. -/
theorem run_enumMethods (ho : o.isInterface = false) (names : List String) :
    Run d ⟨g, os, .type id o :: fs⟩
      ⟨g.modify id fun m => (enumMethods names).foldl Module.addMethod m, os,
        .type id o :: fs⟩ := by
  refine run_adds .method (fun _ _ => rfl) _ fun m hm => ?_
  have hnot : o.isInterface = true → False := by simp [ho]
  simp only [enumMethods, List.mem_cons, List.not_mem_nil, or_false] at hm
  rcases hm with rfl | rfl | rfl
  · refine ⟨⟨rfl, ⟨?_, ?_⟩, fun h => (hnot h).elim⟩, rfl⟩ <;> simp [Method.ofLines]
  · exact ⟨⟨rfl, variadicLast_nil, fun h => (hnot h).elim⟩, rfl⟩
  · exact ⟨⟨rfl, variadicLast_nil, fun h => (hnot h).elim⟩, rfl⟩

/-- A body in a type belongs to the type and to its own method. -/
theorem owner_enterMethod {cx : Context} (hcx : cx.owner = ⟨some id, none⟩) {name : String}
    {static : Bool} {generics : List String} : (cx.enterMethod name static generics).owner =
      ⟨(ownerOf (.type id o :: fs)).module, some ⟨name, static⟩⟩ := by
  have hmodule : cx.module = some id := congrArg Owner.module hcx
  simp [Context.owner, Context.enterMethod, ownerOf, hmodule]

end

/-- Where the statements of a body lead: the body is still open, in the same context, and lists the
types declared on the way. -/
structure Lowers (d : Dialect) (ds : List Declared) (fs : List Frame) (s s' : BodyState) : Prop where
  owner : s'.cx.owner = s.cx.owner
  run : ∀ method before, s.cx.owner = ⟨(ownerOf fs).module, some method⟩ →
    Run d ⟨s.graph, before, .body method s.classes :: fs⟩
      ⟨s'.graph, before ++ ds.map Declared.origin, .body method s'.classes :: fs⟩

theorem Lowers.refl (d : Dialect) (fs : List Frame) (s : BodyState) : Lowers d [] fs s s :=
  ⟨rfl, fun method before _ => by rw [List.map_nil, List.append_nil]⟩

theorem Lowers.trans {d : Dialect} {ds ds' : List Declared} {fs : List Frame} {s s₁ s₂ : BodyState}
    (h : Lowers d ds fs s s₁) (h' : Lowers d ds' fs s₁ s₂) : Lowers d (ds ++ ds') fs s s₂ := by
  refine ⟨h'.owner.trans h.owner, fun method before hcx => ?_⟩
  rw [List.map_append, ← List.append_assoc]
  exact (h.run method before hcx).trans (h'.run method _ (h.owner.trans hcx))

variable (d : Dialect)

-- Every function of the recursion gets its run. The context of a function and the stack of the run
-- agree about the owner of what is declared; the stack below does not matter.
mutual

theorem run_declareType (cx : Context) (comments : List String) (g : Graph) (os : List Origin)
    (fs : List Frame) (hcx : cx.owner = ownerOf fs) : ∀ decl : TypeDecl, decl.Tidy →
    Run d ⟨g, os, fs⟩ ⟨(declareType d cx comments g decl).2,
      os ++ (decl.declared cx.method.isSome).map Declared.origin,
      listed (declareType d cx comments g decl).1 fs⟩
  | .classType name static generics superclass interfaces ⟨opening, members, closing⟩, h => by
    rw [TypeDecl.Tidy, BodyTidy] at h
    rw [declareType, TypeDecl.declared, List.map_cons, List.append_cons]
    refine .head (.openType cx .classType static _ hcx rfl rfl ?_)
      ((run_declareMembers (cx.enterModule g.size generics) g.size _ _ _ rfl fs rfl members h).tail
        (.closeType rfl nofun))
    exact ⟨rfl, rfl, rfl, rfl, rfl, rfl, rfl⟩
  | .enumType name interfaces constants ⟨opening, members, closing⟩, h => by
    rw [TypeDecl.Tidy, BodyTidy] at h
    rw [declareType, TypeDecl.declared, List.map_cons, List.append_cons, List.map_append,
      ← List.append_assoc]
    have houter : (ownerOf fs).module = cx.module := by rw [← hcx]; rfl
    refine .head (.openType cx .enumType false _ hcx rfl rfl ?_)
      ((run_declareConstants cx.module (cx.enterModule g.size []) g.size _ _ _ rfl fs houter
        rfl constants h.1).trans
      ((run_declareMembers (cx.enterModule g.size []) g.size _ _ _ rfl fs rfl members h.2).trans
      ((run_enumMethods rfl _).tail (.closeType rfl nofun))))
    exact ⟨rfl, rfl, rfl, rfl, rfl, rfl, rfl⟩
  | .interfaceType name generics parents ⟨opening, members, closing⟩, h => by
    rw [TypeDecl.Tidy] at h
    rw [declareType, TypeDecl.declared, List.map_cons, List.append_cons]
    refine .head (.openType cx .interfaceType false _ hcx rfl rfl ?_)
      ((run_declareInterfaceMembers (cx.enterModule g.size generics) g.size _ _ _ fs rfl members
        h).tail (.closeInterface rfl))
    exact ⟨rfl, rfl, rfl, rfl, rfl, rfl, rfl⟩
  | .annotationType name bodyComments, _ => by
    rw [declareType, TypeDecl.declared]
    refine .head (.openType cx .interfaceType false _ hcx rfl rfl ?_) (.single (.closeInterface rfl))
    exact ⟨rfl, rfl, rfl, rfl, rfl, rfl, rfl⟩

theorem run_declareMembers (cx : Context) (id : ModuleId) (g : Graph) (os : List Origin)
    (o : Origin) (ho : o.isInterface = false) (fs : List Frame) (hcx : cx.owner = ⟨some id, none⟩) :
    ∀ members : List Member, MembersTidy members → Run d ⟨g, os, .type id o :: fs⟩
      ⟨declareMembers d cx id g members, os ++ (membersDeclared members).map Declared.origin,
        .type id o :: fs⟩
  | [], _ => by
    rw [declareMembers, membersDeclared, List.map_nil, List.append_nil]
  | m :: rest, h => by
    rw [MembersTidy] at h
    rw [declareMembers, membersDeclared, List.map_append, ← List.append_assoc]
    exact (run_declareMember cx id g os o ho fs hcx m h.1).trans
      (run_declareMembers cx id _ _ o ho fs hcx rest h.2)

theorem run_declareMember (cx : Context) (id : ModuleId) (g : Graph) (os : List Origin)
    (o : Origin) (ho : o.isInterface = false) (fs : List Frame) (hcx : cx.owner = ⟨some id, none⟩) :
    ∀ m : Member, m.Tidy → Run d ⟨g, os, .type id o :: fs⟩
      ⟨declareMember d cx id g m, os ++ m.declared.map Declared.origin, .type id o :: fs⟩
  | .empty _, _ => by
    rw [declareMember, Member.declared, List.map_nil, List.append_nil]
  | .initializer comments body, h => by
    rw [Member.Tidy] at h
    rw [declareMember, Member.declared]
    have lowers := lowers_lowerAll (.type id o :: fs) ⟨g, cx.enterMethod "static" true [], []⟩ body h
    rcases hs : lowerAll d ⟨g, cx.enterMethod "static" true [], []⟩ body with ⟨stmts, s⟩
    rw [hs] at lowers
    exact .head (.openBody _) ((lowers.run _ os (owner_enterMethod hcx)).tail
      (.closeBody (.block ⟨.of stmts, s.classes, comments⟩) ⟨ho, rfl⟩))
  | .fields comments static final declarators, _ => by
    rw [declareMember, Member.declared, List.map_nil, List.append_nil]
    exact run_addFields ho cx comments static final declarators
  | .method signature static synchronized body, h => by
    rw [Member.Tidy] at h
    rw [declareMember, Member.declared]
    obtain ⟨lowers, hpresent⟩ := lowers_lowerMethodBody (.type id o :: fs)
      ⟨g, cx.enterMethod signature.name static signature.generics, []⟩ body h.2
    rcases hs : lowerMethodBody d ⟨g, cx.enterMethod signature.name static signature.generics, []⟩ body
      with ⟨lowered, s⟩
    rw [hs] at lowers hpresent
    refine .head (.openBody _) ((lowers.run _ os (owner_enterMethod hcx)).tail
      (.closeBody (.method { methodOf (cx.enterMethod signature.name static signature.generics)
        signature static synchronized lowered with localClasses := s.classes })
        ⟨hpresent, variadicLast_map _ h.1, fun hi => ?_⟩))
    rw [ho] at hi
    cases hi
  | .constructor comments generics params invocation body, h => by
    rw [Member.Tidy] at h
    rw [declareMember, Member.declared]
    have lowers := lowers_lowerAll (.type id o :: fs)
      ⟨g, cx.enterMethod "initialize" false generics, []⟩ body h.2
    rcases hs : lowerAll d ⟨g, cx.enterMethod "initialize" false generics, []⟩ body with ⟨stmts, s⟩
    rw [hs] at lowers
    exact .head (.openBody _) ((lowers.run _ os (owner_enterMethod hcx)).tail
      (.closeBody (.constructor ⟨_, generics, _, .of stmts, s.classes, false, comments⟩)
        ⟨ho, rfl, variadicLast_map _ h.1⟩))
  | .type comments decl, h => by
    rw [Member.Tidy] at h
    rw [declareMember, Member.declared]
    have hmethod : cx.method = none := congrArg Owner.method hcx
    have run := run_declareType cx comments g os (.type id o :: fs) hcx decl h
    rw [hmethod] at run
    exact run

theorem run_declareConstants (outer : Option ModuleId) (cx : Context) (id : ModuleId) (g : Graph)
    (os : List Origin) (o : Origin) (ho : o.isEnum = true) (fs : List Frame)
    (houter : (ownerOf fs).module = outer) (hcx : cx.owner = ⟨some id, none⟩) :
    ∀ constants : List (EnumConstant Member), ConstantsTidy constants →
      Run d ⟨g, os, .type id o :: fs⟩ ⟨declareConstants d outer cx id g constants,
        os ++ (constantsDeclared constants).map Declared.origin, .type id o :: fs⟩
  | [], _ => by
    rw [declareConstants, constantsDeclared, List.map_nil, List.append_nil]
  | ⟨comments, name, arguments, body⟩ :: rest, h => by
    rw [ConstantsTidy] at h
    rw [declareConstants, constantsDeclared, List.map_append, ← List.append_assoc]
    exact ((run_declareConstantBody cx id name g os o ho fs body h.1).trans
      (run_addEnumConstant houter _)).trans
      (run_declareConstants outer cx id _ _ o ho fs houter hcx rest h.2)

theorem run_declareConstantBody (cx : Context) (id : ModuleId) (name : String) (g : Graph)
    (os : List Origin) (o : Origin) (ho : o.isEnum = true) (fs : List Frame) :
    ∀ body : Option (TypeBody Member), ConstantBodyTidy body → Run d ⟨g, os, .type id o :: fs⟩
      ⟨(declareConstantBody d cx id name g body).2,
        os ++ (constantBodyDeclared name body).map Declared.origin, .type id o :: fs⟩
  | none, _ => by
    rw [declareConstantBody, constantBodyDeclared, List.map_nil, List.append_nil]
  | some ⟨opening, members, closing⟩, h => by
    rw [ConstantBodyTidy, BodyTidy] at h
    rw [declareConstantBody, constantBodyDeclared, List.map_cons, List.append_cons]
    exact .head (.openConstant name _ ho) ((run_declareMembers (cx.enterModule g.size []) g.size _ _
      _ rfl _ rfl members h).tail .closeConstant)

theorem run_declareInterfaceMembers (cx : Context) (id : ModuleId) (g : Graph) (os : List Origin)
    (o : Origin) (fs : List Frame) (hcx : cx.owner = ⟨some id, none⟩) :
    ∀ members : List InterfaceMember, InterfaceTidy members → Run d ⟨g, os, .type id o :: fs⟩
      ⟨declareInterfaceMembers d cx id g members, os ++ (interfaceDeclared members).map Declared.origin,
        .type id o :: fs⟩
  | [], _ => by
    rw [declareInterfaceMembers, interfaceDeclared, List.map_nil, List.append_nil]
  | m :: rest, h => by
    rw [InterfaceTidy] at h
    rw [declareInterfaceMembers, interfaceDeclared, List.map_append, ← List.append_assoc]
    exact (run_declareInterfaceMember cx id g os o fs hcx m h.1).trans
      (run_declareInterfaceMembers cx id _ _ o fs hcx rest h.2)

theorem run_declareInterfaceMember (cx : Context) (id : ModuleId) (g : Graph) (os : List Origin)
    (o : Origin) (fs : List Frame) (hcx : cx.owner = ⟨some id, none⟩) :
    ∀ m : InterfaceMember, m.Tidy → Run d ⟨g, os, .type id o :: fs⟩
      ⟨declareInterfaceMember d cx id g m, os ++ m.declared.map Declared.origin, .type id o :: fs⟩
  | .empty _, _ => by
    rw [declareInterfaceMember, InterfaceMember.declared, List.map_nil, List.append_nil]
  | .constants comments declarators, _ => by
    rw [declareInterfaceMember, InterfaceMember.declared, List.map_nil, List.append_nil]
    exact run_addConstants _
  | .method signature, h => by
    rw [InterfaceMember.Tidy] at h
    rw [declareInterfaceMember, InterfaceMember.declared, List.map_nil, List.append_nil]
    exact .single (.add (.method _) ⟨rfl, variadicLast_map _ h, fun _ => ⟨rfl, rfl⟩⟩ rfl)
  | .type comments decl, h => by
    rw [InterfaceMember.Tidy] at h
    rw [declareInterfaceMember, InterfaceMember.declared]
    have hmethod : cx.method = none := congrArg Owner.method hcx
    have run := run_declareType cx comments g os (.type id o :: fs) hcx decl h
    rw [hmethod] at run
    exact run

theorem lowers_lowerMethodBody (fs : List Frame) (s : BodyState) :
    ∀ body : Syntax.MethodBody Statement, MethodTidy body →
      Lowers d (methodDeclared body) fs s (lowerMethodBody d s body).2 ∧
        (lowerMethodBody d s body).1.isPresent = true
  | .block body, h => by
    rw [MethodTidy] at h
    rw [lowerMethodBody, methodDeclared]
    exact ⟨lowers_lowerAll fs s body h, rfl⟩
  | .abstract, _ => by
    rw [lowerMethodBody, methodDeclared]
    exact ⟨.refl d fs s, rfl⟩
  | .native, _ => by
    rw [lowerMethodBody, methodDeclared]
    exact ⟨.refl d fs s, rfl⟩

theorem lowers_lowerAll (fs : List Frame) (s : BodyState) : ∀ body : List Statement,
    StatementsTidy body → Lowers d (bodyDeclared body) fs s (lowerAll d s body).2
  | [], _ => by
    rw [lowerAll, bodyDeclared]
    exact .refl d fs s
  | st :: rest, h => by
    rw [StatementsTidy] at h
    rw [lowerAll, bodyDeclared]
    exact (lowers_lower fs s st h.1).trans (lowers_lowerAll fs _ rest h.2)

theorem lowers_lower (fs : List Frame) (s : BodyState) : ∀ st : Statement, st.Tidy →
    Lowers d st.declared fs s (lower d s st).2
  | .type comments decl, h => by
    rw [Statement.Tidy] at h
    rw [lower, Statement.declared]
    refine ⟨rfl, fun method before hcx => ?_⟩
    have hmethod : s.cx.method = some method := congrArg Owner.method hcx
    have run := run_declareType s.cx comments s.graph before (.body method s.classes :: fs) hcx
      decl h
    rw [hmethod] at run
    exact run
  | .block body, h => by
    rw [Statement.Tidy] at h
    rw [lower, Statement.declared]
    exact lowers_lowerAll fs s body h
  | .ifThen condition thenBranch elseBranch, h => by
    rw [Statement.Tidy] at h
    rw [lower, Statement.declared]
    exact (lowers_lowerAll fs s thenBranch h.1).trans (lowers_lowerElse fs _ elseBranch h.2)
  | .loop condition body, h => by
    rw [Statement.Tidy] at h
    rw [lower, Statement.declared]
    exact lowers_lowerAll fs s body h
  | .labeled label body, h => by
    rw [Statement.Tidy] at h
    rw [lower, Statement.declared]
    exact lowers_lowerAll fs s body h
  | .switch value groups, h => by
    rw [Statement.Tidy] at h
    rw [lower, Statement.declared]
    exact lowers_lowerGroups fs s groups h
  | .comment _, _ | .variables _, _ | .expr _, _ | .leave _, _ | .return _, _ | .throw _, _
  | .invoke _, _ => by
    rw [lower, Statement.declared]
    exact .refl d fs s

theorem lowers_lowerElse (fs : List Frame) (s : BodyState) : ∀ body : Option (List Statement),
    ElseTidy body → Lowers d (elseDeclared body) fs s (lowerElse d s body).2
  | none, _ => by
    rw [lowerElse, elseDeclared]
    exact .refl d fs s
  | some body, h => by
    rw [ElseTidy] at h
    rw [lowerElse, elseDeclared]
    exact lowers_lowerAll fs s body h

theorem lowers_lowerGroups (fs : List Frame) (s : BodyState) :
    ∀ groups : List (SwitchGroup Statement), GroupsTidy groups →
      Lowers d (groupsDeclared groups) fs s (lowerGroups d s groups).2
  | [], _ => by
    rw [lowerGroups, groupsDeclared]
    exact .refl d fs s
  | ⟨labels, body⟩ :: rest, h => by
    rw [GroupsTidy] at h
    rw [lowerGroups, groupsDeclared]
    exact (lowers_lowerAll fs s body h.1).trans (lowers_lowerGroups fs _ rest h.2)

end

/-- **Declaring the types of a unit is a run**, from nothing open to nothing open. -/
theorem run_declareTypes (g : Graph) (os : List Origin) :
    ∀ types : List (List String × TypeDecl), (∀ declared ∈ types, declared.2.Tidy) →
      Run d ⟨g, os, []⟩ ⟨declareTypes d g types,
        os ++ (types.flatMap fun declared => declared.2.declared false).map Declared.origin, []⟩
  | [], _ => by
    rw [declareTypes, List.flatMap_nil, List.map_nil, List.append_nil]
  | (comments, decl) :: rest, h => by
    rw [declareTypes, List.flatMap_cons, List.map_append, ← List.append_assoc]
    have first := run_declareType d .topLevel comments g os [] rfl decl (h _ List.mem_cons_self)
    exact first.trans (run_declareTypes _ _ rest fun declared hd =>
      h declared (List.mem_cons_of_mem _ hd))

end Rubify.Program
