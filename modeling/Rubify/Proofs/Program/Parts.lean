import Rubify.Proofs.Program.Scopes

/-!
# The parts of a unit

A unit consists of headers and of code: bodies, first values and arguments, each with the types that it
declares and the uses in it. `TypeDecl.parts` lists them, those of the types in bodies too. Each part is
found again in the graph (`Graph.Holds`): a header in the module of its type, code in something that was
added to the module around it.

Inside a type nothing is known of the body that the type stands in. So every piece of code begins with no
types known, and every header is written so.

Headline:
* **`holds_ofUnit`**: the graph of a unit has all parts of the unit in it.
-/

namespace Rubify.Syntax

/-! ## Parts of a unit -/

/-- The class that a type extends. -/
def TypeDecl.superclass : TypeDecl → Option TypeRef
  | .classType _ _ _ superclass _ _ => superclass
  | .enumType .. | .interfaceType .. | .annotationType .. => none

/-- The interfaces that a type implements, or extends if it is one itself. -/
def TypeDecl.interfaces : TypeDecl → List TypeRef
  | .classType _ _ _ _ interfaces _ | .enumType _ interfaces _ _ | .interfaceType _ _ interfaces _ =>
    interfaces
  | .annotationType .. => []

/-- A part of a unit in which types are named. -/
inductive Part
  | header (decl : TypeDecl)
  /-- A body or a value, with the types that it declares. -/
  | code (types : List TypeDecl) (uses : List Use)

/-- The uses in the body of a method. -/
def methodUses : MethodBody Statement → List Use
  | .block body => bodyUses [] body
  | .abstract | .native => []

/-- First values, each on its own. -/
def valueParts (declarators : List Declarator) : List Part :=
  declarators.map fun v => .code [] [⟨[], .value v⟩]

/-- The class of a constant of an enum: the enum, or the subclass made for the constant's body. -/
def receiverName (enum name : String) : Option (TypeBody Member) → String
  | none => Text.capitalize enum
  | some _ => Text.capitalize name ++ "_Body"

mutual

/-- The parts of a type. -/
def TypeDecl.parts : TypeDecl → List Part
  | .classType name static generics superclass interfaces ⟨opening, members, closing⟩ =>
    .header (.classType name static generics superclass interfaces ⟨opening, members, closing⟩) ::
      memberParts members
  | .enumType name interfaces constants ⟨opening, members, closing⟩ =>
    .header (.enumType name interfaces constants ⟨opening, members, closing⟩) ::
      (constantParts name constants ++ memberParts members)
  | .interfaceType name generics parents ⟨opening, members, closing⟩ =>
    .header (.interfaceType name generics parents ⟨opening, members, closing⟩) ::
      interfaceParts members
  | .annotationType name comments => [.header (.annotationType name comments)]

/-- The parts of the members of a class or an enum. -/
def memberParts : List Member → List Part
  | [] => []
  | m :: rest => m.parts ++ memberParts rest

/-- The parts of a member. -/
def Member.parts : Member → List Part
  | .empty _ => []
  | .initializer _ body => .code (bodyTypes body) (bodyUses [] body) :: bodyParts body
  | .fields _ _ _ declarators => valueParts declarators
  | .method _ _ _ body => .code (methodTypes body) (methodUses body) :: methodParts body
  | .constructor _ _ _ invocation body =>
    .code (bodyTypes body)
      (invocation.toList.map (fun i => ⟨[], .invocation i.arguments⟩) ++ bodyUses [] body) ::
      bodyParts body
  | .type _ decl => decl.parts

/-- The parts of the constants of an enum. -/
def constantParts (enum : String) : List (EnumConstant Member) → List Part
  | [] => []
  | ⟨_, name, arguments, body⟩ :: rest =>
    .code [] [⟨[], .constant (receiverName enum name body) name arguments⟩] ::
      (constantBodyParts body ++ constantParts enum rest)

/-- The parts of the body of a constant. -/
def constantBodyParts : Option (TypeBody Member) → List Part
  | none => []
  | some ⟨_, members, _⟩ => memberParts members

/-- The parts of the members of an interface. -/
def interfaceParts : List InterfaceMember → List Part
  | [] => []
  | m :: rest => m.parts ++ interfaceParts rest

/-- The parts of a member of an interface. -/
def InterfaceMember.parts : InterfaceMember → List Part
  | .empty _ | .method _ => []
  | .constants _ declarators => valueParts declarators
  | .type _ decl => decl.parts

/-- The parts of the types in the body of a method. -/
def methodParts : MethodBody Statement → List Part
  | .block body => bodyParts body
  | .abstract | .native => []

/-- The parts of the types in a body. -/
def bodyParts : List Statement → List Part
  | [] => []
  | st :: rest => st.parts ++ bodyParts rest

/-- The parts of the types in a statement. -/
def Statement.parts : Statement → List Part
  | .type _ decl => decl.parts
  | .block body | .loop _ body | .labeled _ body => bodyParts body
  | .ifThen _ thenBranch elseBranch => bodyParts thenBranch ++ elseParts elseBranch
  | .switch _ groups => groupParts groups
  | .comment _ | .variables _ | .expr _ | .leave _ | .return _ | .throw _ | .invoke _ => []

/-- The parts of the types in an else branch. -/
def elseParts : Option (List Statement) → List Part
  | none => []
  | some body => bodyParts body

/-- The parts of the types in the groups of a switch. -/
def groupParts : List (SwitchGroup Statement) → List Part
  | [] => []
  | ⟨_, body⟩ :: rest => bodyParts body ++ groupParts rest

end

/-- The parts of a unit. -/
def CompilationUnit.parts (u : CompilationUnit) : List Part :=
  u.types.flatMap fun t => t.2.parts

end Rubify.Syntax

namespace Rubify.Program

open Grammar (Dialect)
open Syntax

/-! ## Where parts are found -/

/-- The texts of expressions in a body. -/
def Body.exprTexts (b : Body) : List String :=
  (b.stmts.map Flow.exprTexts).getD []

/-- The texts of expressions in what a method does. -/
def MethodBody.exprTexts : MethodBody → List String
  | .pending body => body.exprTexts
  | .abstract | .native | .synthesized _ => []

/-- The arguments for another constructor. -/
def Invocation.exprTexts : Invocation → List String
  | .none => []
  | .super arguments | .this arguments => [arguments]

/-- The texts of expressions in what is added to a module. -/
def Addition.exprTexts : Addition → List String
  | .field f | .staticField f => [f.value]
  | .constant c => [c.value]
  | .block b => b.body.exprTexts
  | .method m => m.body.exprTexts
  | .constructor c => c.invocation.exprTexts ++ c.body.exprTexts

/-- Code as it is added to the module `k`: texts of its uses, and modules of its types. -/
structure Graph.Codes (g : Graph) (d : Dialect) (k : ModuleId) (cx : Context) (types : List TypeDecl)
    (uses : List Use) (a : Addition) : Prop where
  texts : a.exprTexts = uses.map (useText d cx (g.path k))
  before : ∀ u ∈ uses, u.known.map Known.decl <+: types
  classes : List.Forall₂ (g.TypeAt k cx.method) types a.localClasses

/-- A part of a unit is in the graph. Headers are written where no type of a body is known. -/
def Graph.Holds (g : Graph) (d : Dialect) : Part → Prop
  | .header decl => ∃ (c : ModuleId) (m : Module) (cx : Context), g.get? c = some m ∧
      m.name = decl.name ∧ cx.localTypes = [] ∧ m.superclass = decl.superclass.map cx.resolve ∧
      m.interfaces = decl.interfaces.map cx.resolve
  | .code types uses => ∃ (k : ModuleId) (m : Module) (cx : Context) (a : Addition),
      g.get? k = some m ∧ m.Has a ∧ g.Codes d k cx types uses a

namespace Module

variable {m : Module} {a b : Addition}

@[simp]
theorem interfaces_add (m : Module) (a : Addition) : (m.add a).interfaces = m.interfaces := by
  cases a <;> rfl

theorem has_add_self (m : Module) (a : Addition) : (m.add a).Has a := by
  cases a <;>
    simp [Has, add, addField, addStaticField, addConstant, addStaticBlock, addMethod, addConstructor]

theorem Has.add (h : m.Has b) (a : Addition) : (m.add a).Has b := by
  cases a <;> cases b <;>
    simp_all [Has, Module.add, addField, addStaticField, addConstant, addStaticBlock, addMethod,
      addConstructor]

theorem Has.foldl_add (h : m.Has b) (as : List Addition) : (as.foldl Module.add m).Has b := by
  induction as generalizing m with
  | nil => exact h
  | cons a rest ih => exact ih (h.add a)

theorem has_foldl_add {as : List Addition} (ha : a ∈ as) (m : Module) :
    (as.foldl Module.add m).Has a := by
  induction as generalizing m with
  | nil => cases ha
  | cons b rest ih =>
    rcases List.mem_cons.mp ha with rfl | ha
    · exact (has_add_self m a).foldl_add rest
    · exact ih ha (m.add b)

end Module

section

variable {d : Dialect} {g g' : Graph} {k : ModuleId} {cx : Context} {types : List TypeDecl}
  {uses : List Use} {a : Addition} {part : Part} {news : ModuleId → List Addition}
  {f : Module → Module}

theorem Graph.Codes.grows (h : g.Codes d k cx types uses a) (hk : k < g.size) (hg : Grows news g g') :
    g'.Codes d k cx types uses a :=
  ⟨by rw [hg.path hk]; exact h.texts, h.before, h.classes.imp fun _ _ ht => ht.grows hk hg⟩

/-- What is in a graph stays in it. -/
theorem Graph.Holds.grows (h : g.Holds d part) (hg : Grows news g g') : g'.Holds d part := by
  cases part with
  | header decl =>
    obtain ⟨c, m, cx, hm, hname, hlocal, hsuper, hinterfaces⟩ := h
    obtain ⟨m', hm', hview⟩ := hg.get?_view (fun m => (m.name, m.superclass, m.interfaces)) hm
      fun m a => by simp
    simp only [Prod.mk.injEq] at hview
    exact ⟨c, m', cx, hm', hview.1.trans hname, hlocal, hview.2.1.trans hsuper,
      hview.2.2.trans hinterfaces⟩
  | code types uses =>
    obtain ⟨k, m, cx, a, hm, ha, hcodes⟩ := h
    have hk := Graph.lt_of_get? hm
    exact ⟨k, _, cx, a, by rw [hg.get? k hk, hm]; rfl, ha.foldl_add (news k), hcodes.grows hk hg⟩

theorem Graph.Holds.modify (h : g.Holds d part) (id : ModuleId)
    (hf : ∀ m, ∃ as : List Addition, f m = as.foldl Module.add m) : (g.modify id f).Holds d part := by
  obtain ⟨news, hg⟩ := (Grows.refl g).exists_modify id hf
  exact h.grows hg

/-- Code is found where it is added. -/
theorem Graph.Codes.holds (h : g.Codes d k cx types uses a) (hk : k < g.size) {as : List Addition}
    (ha : a ∈ as) (hf : ∀ m, f m = as.foldl Module.add m) :
    (g.modify k f).Holds d (.code types uses) := by
  have hm : g.get? k = some g.modules[k] := Array.getElem?_eq_getElem hk
  refine ⟨k, f g.modules[k], cx, a, ?_, ?_, h.grows hk (.modify g k as hf)⟩
  · rw [Graph.get?_modify, hm]
    simp
  · rw [hf]
    exact Module.has_foldl_add ha _

theorem Context.knowing_nil (h : cx.localTypes = []) (path : List String) :
    cx.knowing path [] = cx := by
  obtain ⟨module, method, typeParams, localTypes⟩ := cx
  cases h
  rfl

/-- A single value, where no types are known. -/
theorem Graph.Codes.single (hcx : cx.localTypes = []) {item : Item}
    (htexts : a.exprTexts = [itemText d cx item]) (hclasses : a.localClasses = []) :
    g.Codes d k cx [] [⟨[], item⟩] a := by
  refine ⟨?_, by simp, by rw [hclasses]; exact .nil⟩
  rw [htexts, List.map_singleton, useText, List.map_nil, Context.knowing_nil hcx]

/-- A body is found where the member that has it is added. -/
theorem Spells.holds {path texts : List String} {s s' : BodyState}
    (h : Spells d k path cx [] types uses texts s s') (hf : ∀ m, f m = m.add a)
    (hs : s.classes = []) (htexts : a.exprTexts = texts) (hclasses : a.localClasses = s'.classes) :
    (s'.graph.modify k f).Holds d (.code types uses) := by
  obtain ⟨new, hnew, hat⟩ := h.classes
  have hcodes : s'.graph.Codes d k cx types uses a := by
    refine ⟨?_, h.before, ?_⟩
    · rw [htexts, h.texts, h.stands.path]
    · rw [hclasses, hnew, hs]
      exact hat
  exact hcodes.holds h.stands.lt (List.mem_singleton_self a) hf

end

/-! ## Declaring a unit -/

section

variable {d : Dialect} {g g' : Graph} {k : ModuleId} {news : ModuleId → List Addition}

theorem Grows.rubyName (h : Grows news g g') (hk : k < g.size) : g'.rubyName k = g.rubyName k := by
  rw [Graph.rubyName, h.view hk Module.rubyName_add]
  rfl

/-- The header of a type, in its module. -/
theorem holds_header (cx : Context) (comments : List String) (g : Graph) (decl : TypeDecl) :
    (declareType d cx comments g decl).2.Holds d (.header decl) := by
  obtain ⟨news, hgrows⟩ := exists_grows_declareType d cx comments g decl
  refine Graph.Holds.grows ?_ hgrows
  have hget : (g.alloc (headModule cx comments g.size decl)).2.get? g.size =
      some (headModule cx comments g.size decl) := by
    rw [Graph.get?_alloc, if_pos rfl]
  cases decl with
  | classType name static generics superclass interfaces body =>
    exact ⟨g.size, _, cx.enterModule g.size generics, hget, rfl, rfl, rfl, rfl⟩
  | interfaceType name generics parents body =>
    exact ⟨g.size, _, cx.enterModule g.size generics, hget, rfl, rfl, rfl, rfl⟩
  | enumType name interfaces constants body =>
    exact ⟨g.size, _, cx.enterModule g.size [], hget, rfl, rfl, rfl, rfl⟩
  | annotationType name bodyComments =>
    exact ⟨g.size, _, cx.enterModule g.size [], hget, rfl, rfl, rfl, rfl⟩

/-- A body that is entered in the module `k`. -/
theorem standsIn_enter (cx : Context) (hcx : cx.localTypes = []) (hk : k < g.size) :
    StandsIn k (g.path k) cx (List.map Known.decl []) ⟨g, cx, []⟩ :=
  ⟨(Context.knowing_nil hcx _).symm, hk, rfl⟩

theorem exists_mem_describe {α : Type} (f : List String → Declarator → α) (comments : List String)
    {v : Declarator} : ∀ {declarators : List Declarator}, v ∈ declarators →
      ∃ cs, f cs v ∈ describe f comments declarators
  | first :: rest, hv => by
    rcases List.mem_cons.mp hv with rfl | hv
    · exact ⟨comments, List.mem_cons_self⟩
    · exact ⟨[], List.mem_cons_of_mem _ (List.mem_map_of_mem hv)⟩

/-- Every declarator of a declaration of fields becomes a field, a static field or a constant. -/
theorem exists_mem_fieldAdditions (cx : Context) (comments : List String) (static final : Bool)
    {declarators : List Declarator} {v : Declarator} (hv : v ∈ declarators) :
    ∃ a ∈ fieldAdditions d cx comments static final declarators,
      a.exprTexts = [itemText d cx (.value v)] ∧ a.localClasses = [] := by
  obtain ⟨cs, hfield⟩ := exists_mem_describe (fieldOf d cx) comments hv
  obtain ⟨cs', hconstant⟩ := exists_mem_describe (constantOf d cx) comments hv
  unfold fieldAdditions
  split
  · exact ⟨.constant _, List.mem_map_of_mem hconstant, rfl, rfl⟩
  · split
    · exact ⟨.staticField _, List.mem_map_of_mem hfield, rfl, rfl⟩
    · exact ⟨.field _, List.mem_map_of_mem hfield, rfl, rfl⟩

/-- First values are found where they are added. -/
theorem holds_valueParts {cx : Context} (hcx : cx.localTypes = []) (hk : k < g.size)
    (as : List Addition) {f : Module → Module} (hf : ∀ m, f m = as.foldl Module.add m)
    {declarators : List Declarator} (has : ∀ v ∈ declarators, ∃ a ∈ as,
      a.exprTexts = [itemText d cx (.value v)] ∧ a.localClasses = []) :
    ∀ part ∈ valueParts declarators, (g.modify k f).Holds d part := by
  intro part hpart
  obtain ⟨v, hv, rfl⟩ := List.mem_map.mp hpart
  obtain ⟨a, ha, htexts, hclasses⟩ := has v hv
  exact (Graph.Codes.single hcx htexts hclasses).holds hk ha hf

/-- A constant of an enum is found in the enum. -/
theorem holds_addEnumConstant {cx : Context} (hcx : cx.localTypes = []) (hk : k < g.size)
    (outer : Option ModuleId) (receiver name : String) (arguments : List Expr)
    (comments : List String) :
    (g.addEnumConstant outer k
      (enumConstant d receiver name (arguments.map (exprText d cx)) comments)).Holds d
      (.code [] [⟨[], .constant receiver name arguments⟩]) := by
  have hcodes (g : Graph) : g.Codes d k cx [] [⟨[], .constant receiver name arguments⟩]
      (.constant (enumConstant d receiver name (arguments.map (exprText d cx)) comments)) :=
    .single hcx rfl rfl
  unfold Graph.addEnumConstant
  refine (hcodes _).holds ?_ (List.mem_singleton_self _) fun _ => rfl
  cases outer with
  | none => exact hk
  | some outer => rwa [Graph.size_modify]

variable (d)

/-- The class of a constant is called as its receiver. -/
theorem rubyName_declareConstantBody (cx : Context) {enum : String}
    (henum : g.rubyName k = Text.capitalize enum) (name : String) (body : Option (TypeBody Member)) :
    (declareConstantBody d cx k name g body).2.rubyName (declareConstantBody d cx k name g body).1 =
      receiverName enum name body := by
  cases body with
  | none => exact henum
  | some body =>
    obtain ⟨opening, members, closing⟩ := body
    have hgrows := grows_declareMembers d (cx.enterModule g.size []) g.size
      (g.alloc (constantBody d g k name ⟨opening, members, closing⟩)).2 rfl members
    refine (hgrows.rubyName (g.lt_size_alloc _)).trans ?_
    rw [Graph.rubyName, Graph.get?_alloc, if_pos rfl]
    rfl

/-- The body of a method. -/
theorem spells_lowerMethodBody {path : List String} {cx : Context} {s : BodyState}
    (h : StandsIn k path cx (List.map Known.decl []) s) (hcx : cx.module = some k)
    (body : Syntax.MethodBody Statement) :
    Spells d k path cx [] (methodTypes body) (methodUses body) (lowerMethodBody d s body).1.exprTexts s
      (lowerMethodBody d s body).2 := by
  cases body with
  | block body => exact spells_lowerAll d [] s h hcx body
  | abstract | native => exact .refl h

theorem exprTexts_invocationOf (cx : Context) (invocation : Option Syntax.Invocation) :
    (invocationOf d cx invocation).exprTexts =
      invocation.toList.map fun i => itemText d cx (.invocation i.arguments) := by
  cases invocation with
  | none => rfl
  | some i =>
    simp only [invocationOf]
    split <;> rfl

mutual

theorem holds_declareType (cx : Context) (comments : List String) (g : Graph) : ∀ decl : TypeDecl,
    ∀ part ∈ decl.parts, (declareType d cx comments g decl).2.Holds d part
  | .classType name static generics superclass interfaces ⟨opening, members, closing⟩, part, hpart => by
    rw [TypeDecl.parts] at hpart
    rcases List.mem_cons.mp hpart with rfl | hpart
    · exact holds_header cx comments g _
    · rw [declareType]
      refine Graph.Holds.modify ?_ g.size exists_foldl_ensureConstructor
      exact holds_declareMembers (cx.enterModule g.size generics) g.size _ rfl rfl
        (g.lt_size_alloc _) members part hpart
  | .enumType name interfaces constants ⟨opening, members, closing⟩, part, hpart => by
    rw [TypeDecl.parts] at hpart
    rcases List.mem_cons.mp hpart with rfl | hpart
    · exact holds_header cx comments g _
    · rw [declareType]
      refine Graph.Holds.modify (Graph.Holds.modify ?_ g.size fun m =>
        ⟨(enumMethods _).map .method, by rw [List.foldl_map]; rfl⟩) g.size exists_foldl_ensureConstructor
      rcases List.mem_append.mp hpart with hpart | hpart
      · refine Graph.Holds.grows ?_
          (grows_declareMembers d (cx.enterModule g.size []) g.size _ rfl members)
        refine holds_declareConstants cx.module (cx.enterModule g.size []) g.size _ rfl
          (g.lt_size_alloc _) ?_ constants part hpart
        rw [Graph.rubyName, Graph.get?_alloc, if_pos rfl]
        rfl
      · refine holds_declareMembers (cx.enterModule g.size []) g.size _ rfl rfl ?_ members part hpart
        exact Nat.lt_of_lt_of_le (g.lt_size_alloc _) (grows_declareConstants d cx.module
          (cx.enterModule g.size []) g.size _ (g.lt_size_alloc _) constants).size
  | .interfaceType name generics parents ⟨opening, members, closing⟩, part, hpart => by
    rw [TypeDecl.parts] at hpart
    rcases List.mem_cons.mp hpart with rfl | hpart
    · exact holds_header cx comments g _
    · rw [declareType]
      exact holds_declareInterfaceMembers (cx.enterModule g.size generics) g.size _ rfl rfl
        (g.lt_size_alloc _) members part hpart
  | .annotationType name bodyComments, part, hpart => by
    rw [TypeDecl.parts, List.mem_singleton] at hpart
    subst hpart
    exact holds_header cx comments g _

theorem holds_declareMembers (cx : Context) (id : ModuleId) (g : Graph) (hcx : cx.module = some id)
    (hlocal : cx.localTypes = []) (hid : id < g.size) : ∀ members : List Member,
    ∀ part ∈ memberParts members, (declareMembers d cx id g members).Holds d part
  | [], part, hpart => by
    rw [memberParts] at hpart
    cases hpart
  | m :: rest, part, hpart => by
    have hgrows := grows_declareMember d cx id g hcx m
    rw [memberParts] at hpart
    rw [declareMembers]
    rcases List.mem_append.mp hpart with hpart | hpart
    · exact (holds_declareMember cx id g hcx hlocal hid m part hpart).grows
        (grows_declareMembers d cx id _ hcx rest)
    · exact holds_declareMembers cx id _ hcx hlocal (Nat.lt_of_lt_of_le hid hgrows.size) rest part hpart

theorem holds_declareMember (cx : Context) (id : ModuleId) (g : Graph) (hcx : cx.module = some id)
    (hlocal : cx.localTypes = []) (hid : id < g.size) : ∀ m : Member,
    ∀ part ∈ m.parts, (declareMember d cx id g m).Holds d part
  | .empty _, part, hpart => by
    rw [Member.parts] at hpart
    cases hpart
  | .initializer comments body, part, hpart => by
    have hbody := spells_lowerAll d [] _ (standsIn_enter (cx.enterMethod "static" true []) hlocal hid)
      hcx body
    rw [Member.parts] at hpart
    rw [declareMember]
    rcases List.mem_cons.mp hpart with rfl | hpart
    · exact hbody.holds (a := .block _) (fun _ => rfl) rfl rfl rfl
    · exact (holds_lowerAll _ body part hpart).modify id fun m => ⟨[.block _], rfl⟩
  | .fields comments static final declarators, part, hpart => by
    rw [Member.parts] at hpart
    rw [declareMember]
    exact holds_valueParts hlocal hid _ (addFields_eq d cx comments static final declarators)
      (fun v hv => exists_mem_fieldAdditions cx comments static final hv) part hpart
  | .method signature static synchronized body, part, hpart => by
    have hbody := spells_lowerMethodBody d (standsIn_enter
      (cx.enterMethod signature.name static signature.generics) hlocal hid) hcx body
    rw [Member.parts] at hpart
    rw [declareMember]
    rcases List.mem_cons.mp hpart with rfl | hpart
    · exact hbody.holds (a := .method _) (fun _ => rfl) rfl rfl rfl
    · exact (holds_lowerMethodBody _ body part hpart).modify id fun m => ⟨[.method _], rfl⟩
  | .constructor comments generics params invocation body, part, hpart => by
    have henter := standsIn_enter (cx.enterMethod "initialize" false generics) hlocal hid
    have hinvocation := Spells.items henter invocation.toList (fun i => .invocation i.arguments)
      (exprTexts_invocationOf d _ invocation)
    have hbody := hinvocation.trans (spells_lowerAll d [] _ henter hcx body)
    rw [Member.parts] at hpart
    rw [declareMember]
    rcases List.mem_cons.mp hpart with rfl | hpart
    · exact hbody.holds (a := .constructor _) (fun _ => rfl) rfl rfl rfl
    · exact (holds_lowerAll _ body part hpart).modify id fun m => ⟨[.constructor _], rfl⟩
  | .type comments decl, part, hpart => by
    rw [Member.parts] at hpart
    rw [declareMember]
    exact holds_declareType cx comments g decl part hpart

theorem holds_declareConstants (outer : Option ModuleId) (cx : Context) (id : ModuleId) (g : Graph)
    (hlocal : cx.localTypes = []) (hid : id < g.size) {enum : String}
    (henum : g.rubyName id = Text.capitalize enum) : ∀ constants : List (EnumConstant Member),
    ∀ part ∈ constantParts enum constants, (declareConstants d outer cx id g constants).Holds d part
  | [], part, hpart => by
    rw [constantParts] at hpart
    cases hpart
  | ⟨comments, name, arguments, body⟩ :: rest, part, hpart => by
    have hbody := grows_declareConstantBody d cx id name g body
    have hid' := Nat.lt_of_lt_of_le hid hbody.size
    have hreceiver := rubyName_declareConstantBody d cx henum name body
    have hadd := Grows.addEnumConstant (declareConstantBody d cx id name g body).2 outer id
      (enumConstant d ((declareConstantBody d cx id name g body).2.rubyName
        (declareConstantBody d cx id name g body).1) name (arguments.map (exprText d cx)) comments)
    have hid'' := Nat.lt_of_lt_of_le hid' hadd.size
    rw [constantParts] at hpart
    rw [declareConstants]
    rcases List.mem_cons.mp hpart with rfl | hpart
    · refine Graph.Holds.grows ?_ (grows_declareConstants d outer cx id _ hid'' rest)
      rw [hreceiver]
      exact holds_addEnumConstant hlocal hid' outer _ name arguments comments
    · rcases List.mem_append.mp hpart with hpart | hpart
      · exact ((holds_declareConstantBody cx id name g body part hpart).grows hadd).grows
          (grows_declareConstants d outer cx id _ hid'' rest)
      · refine holds_declareConstants outer cx id _ hlocal hid'' ?_ rest part hpart
        rw [hadd.rubyName hid', hbody.rubyName hid, henum]

theorem holds_declareConstantBody (cx : Context) (id : ModuleId) (name : String) (g : Graph) :
    ∀ body : Option (TypeBody Member), ∀ part ∈ constantBodyParts body,
      (declareConstantBody d cx id name g body).2.Holds d part
  | none, part, hpart => by
    rw [constantBodyParts] at hpart
    cases hpart
  | some ⟨opening, members, closing⟩, part, hpart => by
    rw [constantBodyParts] at hpart
    rw [declareConstantBody]
    exact holds_declareMembers (cx.enterModule g.size []) g.size _ rfl rfl
      (g.lt_size_alloc _) members part hpart

theorem holds_declareInterfaceMembers (cx : Context) (id : ModuleId) (g : Graph)
    (hcx : cx.module = some id) (hlocal : cx.localTypes = []) (hid : id < g.size) :
    ∀ members : List InterfaceMember, ∀ part ∈ interfaceParts members,
      (declareInterfaceMembers d cx id g members).Holds d part
  | [], part, hpart => by
    rw [interfaceParts] at hpart
    cases hpart
  | m :: rest, part, hpart => by
    have hgrows := grows_declareInterfaceMember d cx id g hcx m
    rw [interfaceParts] at hpart
    rw [declareInterfaceMembers]
    rcases List.mem_append.mp hpart with hpart | hpart
    · exact (holds_declareInterfaceMember cx id g hlocal hid m part hpart).grows
        (grows_declareInterfaceMembers d cx id _ hcx rest)
    · exact holds_declareInterfaceMembers cx id _ hcx hlocal (Nat.lt_of_lt_of_le hid hgrows.size) rest
        part hpart

theorem holds_declareInterfaceMember (cx : Context) (id : ModuleId) (g : Graph)
    (hlocal : cx.localTypes = []) (hid : id < g.size) : ∀ m : InterfaceMember,
    ∀ part ∈ m.parts, (declareInterfaceMember d cx id g m).Holds d part
  | .empty _, part, hpart | .method _, part, hpart => by
    rw [InterfaceMember.parts] at hpart
    cases hpart
  | .constants comments declarators, part, hpart => by
    rw [InterfaceMember.parts] at hpart
    rw [declareInterfaceMember]
    refine holds_valueParts hlocal hid ((describe (constantOf d cx) comments declarators).map .constant)
      (fun m => by rw [List.foldl_map]; rfl) (fun v hv => ?_) part hpart
    obtain ⟨cs, hconstant⟩ := exists_mem_describe (constantOf d cx) comments hv
    exact ⟨.constant _, List.mem_map_of_mem hconstant, rfl, rfl⟩
  | .type comments decl, part, hpart => by
    rw [InterfaceMember.parts] at hpart
    rw [declareInterfaceMember]
    exact holds_declareType cx comments g decl part hpart

theorem holds_lowerMethodBody (s : BodyState) : ∀ body : Syntax.MethodBody Statement,
    ∀ part ∈ methodParts body, (lowerMethodBody d s body).2.graph.Holds d part
  | .block body, part, hpart => by
    rw [methodParts] at hpart
    rw [lowerMethodBody]
    exact holds_lowerAll s body part hpart
  | .abstract, part, hpart | .native, part, hpart => by
    rw [methodParts] at hpart
    cases hpart

theorem holds_lowerAll (s : BodyState) : ∀ body : List Statement,
    ∀ part ∈ bodyParts body, (lowerAll d s body).2.graph.Holds d part
  | [], part, hpart => by
    rw [bodyParts] at hpart
    cases hpart
  | st :: rest, part, hpart => by
    rw [bodyParts] at hpart
    rw [lowerAll]
    rcases List.mem_append.mp hpart with hpart | hpart
    · exact (holds_lower s st part hpart).grows (grows_lowerAll d _ rest).grows
    · exact holds_lowerAll _ rest part hpart

theorem holds_lower (s : BodyState) : ∀ st : Statement,
    ∀ part ∈ st.parts, (lower d s st).2.graph.Holds d part
  | .type comments decl, part, hpart => by
    rw [Statement.parts] at hpart
    rw [lower]
    exact holds_declareType s.cx comments s.graph decl part hpart
  | .block body, part, hpart | .loop _ body, part, hpart | .labeled _ body, part, hpart => by
    rw [Statement.parts] at hpart
    rw [lower]
    exact holds_lowerAll s body part hpart
  | .ifThen condition thenBranch elseBranch, part, hpart => by
    rw [Statement.parts] at hpart
    rw [lower]
    rcases List.mem_append.mp hpart with hpart | hpart
    · exact (holds_lowerAll s thenBranch part hpart).grows (grows_lowerElse d _ elseBranch).grows
    · exact holds_lowerElse _ elseBranch part hpart
  | .switch value groups, part, hpart => by
    rw [Statement.parts] at hpart
    rw [lower]
    exact holds_lowerGroups s groups part hpart
  | .comment _, part, hpart | .variables _, part, hpart | .expr _, part, hpart | .leave _, part, hpart
  | .return _, part, hpart | .throw _, part, hpart | .invoke _, part, hpart => by
    rw [Statement.parts] at hpart
    cases hpart

theorem holds_lowerElse (s : BodyState) : ∀ body : Option (List Statement),
    ∀ part ∈ elseParts body, (lowerElse d s body).2.graph.Holds d part
  | none, part, hpart => by
    rw [elseParts] at hpart
    cases hpart
  | some body, part, hpart => by
    rw [elseParts] at hpart
    rw [lowerElse]
    exact holds_lowerAll s body part hpart

theorem holds_lowerGroups (s : BodyState) : ∀ groups : List (SwitchGroup Statement),
    ∀ part ∈ groupParts groups, (lowerGroups d s groups).2.graph.Holds d part
  | [], part, hpart => by
    rw [groupParts] at hpart
    cases hpart
  | ⟨labels, body⟩ :: rest, part, hpart => by
    rw [groupParts] at hpart
    rw [lowerGroups]
    rcases List.mem_append.mp hpart with hpart | hpart
    · exact (holds_lowerAll s body part hpart).grows (grows_lowerGroups d _ rest).grows
    · exact holds_lowerGroups _ rest part hpart

end

theorem exists_grows_declareTypes (g : Graph) (types : List (List String × TypeDecl)) :
    ∃ news, Grows news g (declareTypes d g types) := by
  induction types generalizing g with
  | nil => exact ⟨_, .refl g⟩
  | cons t rest ih =>
    obtain ⟨news, hrest⟩ := ih (declareType d .topLevel t.1 g t.2).2
    exact ⟨_, (grows_declareType d .topLevel t.1 g t.2).trans hrest⟩

theorem holds_declareTypes (g : Graph) (types : List (List String × TypeDecl)) :
    ∀ part ∈ types.flatMap (fun t => t.2.parts), (declareTypes d g types).Holds d part := by
  induction types generalizing g with
  | nil => simp
  | cons t rest ih =>
    intro part hpart
    obtain ⟨news, hrest⟩ := exists_grows_declareTypes d (declareType d .topLevel t.1 g t.2).2 rest
    rcases List.mem_append.mp hpart with hpart | hpart
    · exact (holds_declareType d .topLevel t.1 g t.2 part hpart).grows hrest
    · exact ih _ part hpart

/-- **The graph of a unit** has all parts of the unit in it. -/
theorem holds_ofUnit (u : CompilationUnit) : ∀ part ∈ u.parts, (Graph.ofUnit d u).Holds d part :=
  holds_declareTypes d _ u.types

end

end Rubify.Program
