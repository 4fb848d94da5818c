import Rubify.Proofs.Program.Built
import Rubify.Proofs.Program.Parts
import Rubify.Proofs.Program.Places
import Rubify.Proofs.Program.Projection

/-!
# What becomes of an enum

An enum is a module that begins with its constants. Each is an instance of its class, the enum or the
inner class made for the constant's body, and knows its name. Behind the methods of the enum stand three
that every enum has. The module around the enum refers to the constants under their own names.

The constants that come from enums are those without a declared type. A module has none of them but the
instances of its own constants, if it is an enum, and the references to the constants of the enums
directly inside of it. Members add the references (`refers_membersAdditions`), and the constants of an
enum add its instances (`constantsAdditions_self`).

Headlines:
* **`exists_module_declareType`**: the module of a type, as it is in the end;
* **`enumerates_ofTree`**: the constants that come from enums in every module of a tree's graph, and
  what else belongs to an enum.
-/

namespace Rubify.Syntax

/-! ## Types directly inside -/

/-- The types declared in a member, without those inside of them. -/
def Member.types : Member → List TypeDecl
  | .empty _ | .fields _ _ _ _ => []
  | .initializer _ body | .constructor _ _ _ _ body => bodyTypes body
  | .method _ _ _ body => methodTypes body
  | .type _ decl => [decl]

/-- The types declared in a member of an interface, without those inside of them. -/
def InterfaceMember.types : InterfaceMember → List TypeDecl
  | .empty _ | .constants _ _ | .method _ => []
  | .type _ decl => [decl]

/-- The types declared directly inside a type. -/
def TypeDecl.types : TypeDecl → List TypeDecl
  | .classType _ _ _ _ _ body | .enumType _ _ _ body => body.members.flatMap Member.types
  | .interfaceType _ _ _ body => body.members.flatMap InterfaceMember.types
  | .annotationType .. => []

/-- The constants of a type, if it is an enum. -/
def TypeDecl.constants : TypeDecl → List (EnumConstant Member)
  | .enumType _ _ constants _ => constants
  | .classType .. | .interfaceType .. | .annotationType .. => []

/-- The types directly inside a declaration. -/
def Declared.types : Declared → List TypeDecl
  | .type decl _ => decl.types
  | .constantBody _ body => body.members.flatMap Member.types

/-- The enum constants of a declaration. -/
def Declared.constants : Declared → List (EnumConstant Member)
  | .type decl _ => decl.constants
  | .constantBody .. => []

end Rubify.Syntax

namespace Rubify.Program

open Grammar (Dialect)
open Syntax

/-! ## Constants that come from enums -/

theorem Module.constants_foldl_add (m : Module) (as : List Addition) :
    (as.foldl Module.add m).constants = m.constants ++ as.filterMap Addition.constant? := by
  induction as generalizing m with
  | nil => simp
  | cons a rest ih =>
    rw [List.foldl_cons, ih]
    cases a <;> simp [Module.add, addField, addStaticField, addConstant, addStaticBlock, addMethod,
      addConstructor, Addition.constant?, List.filterMap_cons]

theorem filterMap_constant?_map (cs : List Constant) :
    (cs.map Addition.constant).filterMap Addition.constant? = cs := by
  rw [List.filterMap_map]
  exact List.filterMap_some

/-- The constants without declared type among additions. -/
def untyped (as : List Addition) : List Constant :=
  (as.filterMap Addition.constant?).filter (·.type.isNone)

theorem Module.untyped_foldl_add {m : Module} (h : m.constants = []) (as : List Addition) :
    (as.foldl Module.add m).constants.filter (·.type.isNone) = untyped as := by
  rw [constants_foldl_add, h, List.nil_append, untyped]

theorem untyped_append (as bs : List Addition) : untyped (as ++ bs) = untyped as ++ untyped bs := by
  simp [untyped]

theorem untyped_constants {cs : List Constant} (h : ∀ c ∈ cs, c.type = none) :
    untyped (cs.map .constant) = cs := by
  rw [untyped, filterMap_constant?_map, List.filter_eq_self]
  exact fun c hc => by rw [h c hc]; rfl

theorem untyped_methods (ms : List Method) : untyped (ms.map .method) = [] := by
  simp [untyped, List.filterMap_map, Function.comp_def, Addition.constant?]

theorem untyped_constructors (cs : List Constructor) : untyped (cs.map .constructor) = [] := by
  simp [untyped, List.filterMap_map, Function.comp_def, Addition.constant?]

theorem references_singleton (path : List String) (decl : TypeDecl) :
    references path [decl] = typeReferences path decl :=
  List.append_nil _

/-- What is added in a module at `path` refers to the constants of the enums among certain types, to
those of one enum in a row, and has no other constants without type. -/
structure Refers (path : List String) (types : List TypeDecl) (as : List Addition) : Prop where
  constants : untyped as = references path types
  rows : ∀ decl ∈ types, typeReferences path decl <:+: as.filterMap Addition.constant?

namespace Refers

variable {path : List String} {types types' : List TypeDecl} {as bs : List Addition}

theorem of_untyped (h : untyped as = []) : Refers path [] as :=
  ⟨h, nofun⟩

theorem append (h : Refers path types as) (h' : Refers path types' bs) :
    Refers path (types ++ types') (as ++ bs) := by
  refine ⟨?_, fun decl hdecl => ?_⟩
  · rw [untyped_append, h.constants, h'.constants]
    simp [references]
  · rw [List.filterMap_append]
    rcases List.mem_append.mp hdecl with hdecl | hdecl
    · exact (h.rows decl hdecl).trans (List.prefix_append _ _).isInfix
    · exact (h'.rows decl hdecl).trans (List.suffix_append _ _).isInfix

theorem of_references (path : List String) (types : List TypeDecl) :
    Refers path types ((references path types).map .constant) := by
  refine ⟨untyped_constants fun c hc => ?_, fun decl hdecl => ?_⟩
  · obtain ⟨decl, -, hc⟩ := List.mem_flatMap.mp hc
    cases decl with
    | enumType name interfaces constants body =>
      obtain ⟨constant, -, rfl⟩ := List.mem_map.mp hc
      rfl
    | classType | interfaceType | annotationType => cases hc
  · rw [filterMap_constant?_map]
    obtain ⟨front, back, rfl⟩ := List.append_of_mem hdecl
    exact ⟨references path front, references path back, by simp [references]⟩

end Refers

section

variable (d : Dialect)

/-- A declared constant has a type. -/
theorem untyped_describe (cx : Context) (comments : List String) (declarators : List Declarator) :
    untyped ((describe (constantOf d cx) comments declarators).map .constant) = [] := by
  rw [untyped, filterMap_constant?_map, List.filter_eq_nil_iff]
  cases declarators with
  | nil => simp [describe]
  | cons v rest => simp [describe, constantOf]

theorem untyped_fieldAdditions (cx : Context) (comments : List String) (static final : Bool)
    (declarators : List Declarator) :
    untyped (fieldAdditions d cx comments static final declarators) = [] := by
  unfold fieldAdditions
  split
  · exact untyped_describe d cx comments declarators
  · split <;> simp [untyped, List.filterMap_map, Function.comp_def, Addition.constant?]

/-- A member refers to the enums in it. -/
theorem refers_memberAdditions (cx : Context) (id : ModuleId) (g : Graph) (m : Member) :
    Refers (g.path id) m.types (memberAdditions d cx id g m) := by
  cases m with
  | empty comments => exact .of_untyped rfl
  | fields comments static final declarators =>
    exact .of_untyped (untyped_fieldAdditions d cx comments static final declarators)
  | initializer comments body
  | method signature static synchronized body
  | constructor comments generics params invocation body =>
    rw [memberAdditions, ← List.append_nil (Member.types _)]
    exact (Refers.of_references _ _).append (.of_untyped rfl)
  | type comments decl =>
    rw [memberAdditions, Member.types, ← references_singleton]
    exact .of_references _ _

theorem refers_membersAdditions (cx : Context) (id : ModuleId) (hcx : cx.module = some id)
    (members : List Member) (g : Graph) (hid : id < g.size) :
    Refers (g.path id) (members.flatMap Member.types) (membersAdditions d cx id g members) := by
  induction members generalizing g with
  | nil => exact .of_untyped rfl
  | cons m rest ih =>
    have hgrows := grows_declareMember d cx id g hcx m
    have hrest := ih _ (Nat.lt_of_lt_of_le hid hgrows.size)
    rw [hgrows.path hid] at hrest
    exact (refers_memberAdditions d cx id g m).append hrest

theorem refers_interfaceMemberAdditions (cx : Context) (id : ModuleId) (g : Graph)
    (m : InterfaceMember) : Refers (g.path id) m.types (interfaceMemberAdditions d cx id g m) := by
  cases m with
  | empty comments | method signature => exact .of_untyped rfl
  | constants comments declarators => exact .of_untyped (untyped_describe d cx comments declarators)
  | type comments decl =>
    rw [interfaceMemberAdditions, InterfaceMember.types, ← references_singleton]
    exact .of_references _ _

theorem refers_interfaceMembersAdditions (cx : Context) (id : ModuleId) (hcx : cx.module = some id)
    (members : List InterfaceMember) (g : Graph) (hid : id < g.size) :
    Refers (g.path id) (members.flatMap InterfaceMember.types)
      (interfaceMembersAdditions d cx id g members) := by
  induction members generalizing g with
  | nil => exact .of_untyped rfl
  | cons m rest ih =>
    have hgrows := grows_declareInterfaceMember d cx id g hcx m
    have hrest := ih _ (Nat.lt_of_lt_of_le hid hgrows.size)
    rw [hgrows.path hid] at hrest
    exact (refers_interfaceMemberAdditions d cx id g m).append hrest

/-! ## The constants of an enum -/

/-- The classes of the constants of the enum `id`, where the next module to be made is `next`. -/
def constantClasses (id : ModuleId) : ModuleId → List (EnumConstant Member) → List ModuleId
  | _, [] => []
  | next, c :: rest =>
    (if c.body.isSome then next else id) ::
      constantClasses id (next + (constantBodyDeclared c.name c.body).length) rest

/-- The constant `c` of an enum, an instance of the module `k`. -/
def instanceOf (cx : Context) (g : Graph) (c : EnumConstant Member) (k : ModuleId) : Constant :=
  enumConstant d (g.rubyName k) c.name (c.arguments.map (exprText d cx)) c.comments

/-- The graph with one more constant of the enum `id`. -/
def declareConstant (outer : Option ModuleId) (cx : Context) (id : ModuleId) (g : Graph)
    (c : EnumConstant Member) : Graph :=
  let (k, g) := declareConstantBody d cx id c.name g c.body
  g.addEnumConstant outer id (instanceOf d cx g c k)

theorem declareConstants_cons (outer : Option ModuleId) (cx : Context) (id : ModuleId) (g : Graph)
    (c : EnumConstant Member) (rest : List (EnumConstant Member)) :
    declareConstants d outer cx id g (c :: rest) =
      declareConstants d outer cx id (declareConstant d outer cx id g c) rest := by
  rw [declareConstants]
  rfl

theorem declareConstantBody_fst (cx : Context) (id : ModuleId) (name : String) (g : Graph)
    (body : Option (TypeBody Member)) :
    (declareConstantBody d cx id name g body).1 = if body.isSome then g.size else id := by
  cases body <;> rfl

variable (cx : Context) {outer : Option ModuleId} {id : ModuleId} {g : Graph}

theorem declareConstantBody_fst_lt (hid : id < g.size) (name : String)
    (body : Option (TypeBody Member)) : (declareConstantBody d cx id name g body).1 <
      (declareConstantBody d cx id name g body).2.size := by
  rw [(fills_declareConstantBody d cx id name g hid body).size, declareConstantBody_fst]
  cases body with
  | none => exact hid
  | some body => simp [constantBodyDeclared]

theorem size_declareConstant (hid : id < g.size) (houter : ∀ o ∈ outer, o < id)
    (c : EnumConstant Member) : (declareConstant d outer cx id g c).size =
      g.size + (constantBodyDeclared c.name c.body).length :=
  ((fills_declareConstantBody d cx id c.name g hid c.body).addEnumConstant hid
    (fun o ho => Nat.lt_trans (houter o ho) hid) _).size

theorem Graph.constantBodies_addEnumConstant (g : Graph) (outer : Option ModuleId) (id : ModuleId)
    (c : Constant) (k : ModuleId) :
    (g.addEnumConstant outer id c).constantBodies k = g.constantBodies k := by
  unfold addEnumConstant
  refine (constantBodies_modify fun m => ⟨[.constant c], rfl⟩).trans ?_
  cases outer with
  | none => rfl
  | some o => exact constantBodies_modify fun m => ⟨[.constant _], rfl⟩

/-- The body of a constant is an inner class of the enum. -/
theorem constantBodies_declareConstant (hid : id < g.size) (c : EnumConstant Member) :
    (declareConstant d outer cx id g c).constantBodies id =
      g.constantBodies id ++ if c.body.isSome then [g.size] else [] := by
  obtain ⟨comments, name, arguments, body⟩ := c
  refine (Graph.constantBodies_addEnumConstant _ outer id _ id).trans ?_
  cases body with
  | none => simp [declareConstantBody]
  | some body =>
    obtain ⟨opening, members, closing⟩ := body
    rw [declareConstantBody]
    refine ((fills_declareMembers d (cx.enterModule g.size []) g.size _ rfl (g.lt_size_alloc _)
      members).bodies id (Nat.lt_trans hid (g.lt_size_alloc _)) nofun).trans ?_
    rw [Graph.constantBodies_alloc]
    simp [Module.isConstantBodyOf, constantBody]

theorem constantBodies_declareConstants (houter : ∀ o ∈ outer, o < id)
    (constants : List (EnumConstant Member)) (g : Graph) (hid : id < g.size) :
    (declareConstants d outer cx id g constants).constantBodies id =
      g.constantBodies id ++ (constantClasses id g.size constants).filter (· ≠ id) := by
  induction constants generalizing g with
  | nil => simp [declareConstants, constantClasses]
  | cons c rest ih =>
    have hsize := size_declareConstant d cx hid houter c
    have hne : g.size ≠ id := Nat.ne_of_gt hid
    rw [declareConstants_cons, ih _ (Nat.lt_of_lt_of_le hid (Nat.le.intro hsize.symm)), hsize,
      constantBodies_declareConstant d cx hid, constantClasses, List.append_assoc]
    cases hbody : c.body with
    | none => simp
    | some body => simp [hne]

/-- An enum gets its constants, each an instance of its class. -/
theorem constantsAdditions_self (houter : ∀ o ∈ outer, o < id) (path : List String)
    (constants : List (EnumConstant Member)) (g : Graph) (hid : id < g.size) {g' : Graph}
    {news : ModuleId → List Addition}
    (h : Grows news (declareConstants d outer cx id g constants) g') :
    constantsAdditions d outer cx id path g constants id =
      (List.zipWith (instanceOf d cx g') constants (constantClasses id g.size constants)).map
        .constant := by
  induction constants generalizing g with
  | nil => simp [constantsAdditions, constantClasses]
  | cons c rest ih =>
    have hsize := size_declareConstant d cx hid houter c
    have hid' := Nat.lt_of_lt_of_le hid (Nat.le.intro hsize.symm)
    rw [declareConstants_cons] at h
    -- The class is still called the same in the end.
    have hname := (((Grows.addEnumConstant _ outer id _).trans
      (grows_declareConstants d outer cx id (declareConstant d outer cx id g c) hid' rest)).trans
      h).rubyName (declareConstantBody_fst_lt d cx hid c.name c.body)
    have hrest := ih _ hid' h
    rw [hsize] at hrest
    rw [constantsAdditions, additionsTo_of_lt houter (Nat.le_refl id), constantClasses,
      List.zipWith_cons_cons, List.map_cons, ← hrest, ← declareConstantBody_fst d cx id c.name g c.body,
      instanceOf, hname]
    simp only [List.nil_append, additionsTo, if_true]
    rfl

/-- The class of a constant of the enum `id`: the enum, or the module of the constant's body. -/
inductive ClassOf (declared : List Declared) (id : ModuleId) (c : EnumConstant Member) :
    ModuleId → Prop
  | enum (h : c.body = none) : ClassOf declared id c id
  | body {k : ModuleId} {body : TypeBody Member} (h : c.body = some body) (hlt : id < k)
      (hk : declared[k]? = some (.constantBody c.name body)) : ClassOf declared id c k

theorem classOf_constantClasses (declared : List Declared) (id : ModuleId)
    (constants : List (EnumConstant Member)) (next : ModuleId) (hlt : id < next)
    (h : constantsDeclared constants <+: declared.drop next) :
    List.Forall₂ (ClassOf declared id) constants (constantClasses id next constants) := by
  induction constants generalizing next with
  | nil => exact .nil
  | cons c rest ih =>
    obtain ⟨comments, name, arguments, body⟩ := c
    obtain ⟨more, hmore⟩ := h
    rw [constantsDeclared, List.append_assoc] at hmore
    refine .cons ?_ (ih _ (Nat.lt_of_lt_of_le hlt (Nat.le_add_right next _)) ⟨more, ?_⟩)
    · cases body with
      | none => exact .enum rfl
      | some body =>
        obtain ⟨opening, members, closing⟩ := body
        have hnext : declared[next]? = some (.constantBody name ⟨opening, members, closing⟩) := by
          rw [← Nat.add_zero next, ← List.getElem?_drop, ← hmore]
          rfl
        exact .body rfl hlt hnext
    · rw [← List.drop_drop, ← hmore, List.drop_left]

/-! ## The module of a declaration -/

theorem exists_foldl_add_ensureConstructor (m : Module) (as : List Addition) :
    ∃ cs : List Constructor, (as.foldl Module.add m).ensureConstructor =
      (as ++ cs.map Addition.constructor).foldl Module.add m := by
  rcases (as.foldl Module.add m).ensureConstructor_eq with h | h
  · exact ⟨[], by simpa using h⟩
  · exact ⟨[.ofInvocation [] .none], by simpa using h⟩

/-- A new module with what was added to it since. -/
theorem Grows.get?_alloc {news : ModuleId → List Addition} {m : Module} {g' : Graph}
    (h : Grows news (g.alloc m).2 g') :
    g'.get? g.size = some ((news g.size).foldl Module.add m) := by
  rw [h.get? g.size (g.lt_size_alloc m), Graph.get?_alloc, if_pos rfl]
  rfl

theorem Graph.get?_modify_self {m : Module} (h : g.get? id = some m) (f : Module → Module) :
    (g.modify id f).get? id = some (f m) := by
  simp [get?_modify, h]

/-- The module of an enum: constants, members, the methods that every enum has, and the constructor
that a class with fields needs. -/
theorem get?_declareType_enumType (comments : List String) (g : Graph) (name : String)
    (interfaces : List TypeRef) (constants : List (EnumConstant Member)) (body : TypeBody Member) :
    let m := headModule cx comments g.size (.enumType name interfaces constants body)
    let inner := cx.enterModule g.size []
    let g₁ := (g.alloc m).2
    (declareType d cx comments g (.enumType name interfaces constants body)).2.get? g.size =
      some ((constantsAdditions d cx.module inner g.size (g₁.path g.size) g₁ constants g.size ++
        membersAdditions d inner g.size (declareConstants d cx.module inner g.size g₁ constants)
          body.members ++
        (enumMethods (constants.map fun c => Text.capitalize c.name)).map Addition.method).foldl
          Module.add m).ensureConstructor := by
  intro m inner g₁
  obtain ⟨opening, members, closing⟩ := body
  have hget := ((grows_declareConstants d cx.module inner g.size g₁ (g.lt_size_alloc m)
    constants).trans (grows_declareMembers d inner g.size _ rfl members)).get?_alloc
  have hmethods := Graph.get?_modify_self hget fun m =>
    (enumMethods (constants.map fun c => Text.capitalize c.name)).foldl Module.addMethod m
  rw [declareType]
  refine (Graph.get?_modify_self hmethods Module.ensureConstructor).trans ?_
  simp only [List.foldl_append, List.foldl_map, additionsTo, if_true]
  rfl

/-- Behind its constants, an enum only grows. -/
theorem exists_grows_declareConstants (comments : List String) (g : Graph) (name : String)
    (interfaces : List TypeRef) (constants : List (EnumConstant Member)) (body : TypeBody Member) :
    ∃ news, Grows news (declareConstants d cx.module (cx.enterModule g.size []) g.size
        (g.alloc (headModule cx comments g.size (.enumType name interfaces constants body))).2 constants)
      (declareType d cx comments g (.enumType name interfaces constants body)).2 := by
  obtain ⟨opening, members, closing⟩ := body
  obtain ⟨news, hmethods⟩ := (grows_declareMembers d (cx.enterModule g.size []) g.size
    (declareConstants d cx.module (cx.enterModule g.size []) g.size _ constants) rfl
    members).exists_modify g.size
    (exists_foldl_addMethod (enumMethods (constants.map fun c => Text.capitalize c.name)))
  exact hmethods.exists_modify g.size exists_foldl_ensureConstructor

/-- The methods that a type has besides its own. -/
def typeMethods : TypeDecl → List Method
  | .enumType _ _ constants _ => enumMethods (constants.map fun c => Text.capitalize c.name)
  | .classType .. | .interfaceType .. | .annotationType .. => []

/-- **The module of a type** in the end: instances of its class first, then what its members add, with
references to the enums among them, then the methods that every enum has. -/
theorem exists_module_declareType {comments : List String} {decl : TypeDecl} {g' : Graph}
    {news : ModuleId → List Addition} (hcx : ∀ o ∈ cx.module, o < g.size)
    (h : Grows news (declareType d cx comments g decl).2 g') :
    ∃ (own : List Addition) (cs : List Constructor),
      (declareType d cx comments g decl).2.get? g.size = some
        (((List.zipWith (instanceOf d (cx.enterModule g.size []) g') decl.constants
          (constantClasses g.size (g.size + 1) decl.constants)).map Addition.constant ++ own ++
          (typeMethods decl).map Addition.method ++ cs.map Addition.constructor).foldl Module.add
            (headModule cx comments g.size decl)) ∧
      Refers (g'.path g.size) decl.types own := by
  have hpath : g'.path g.size = (g.alloc (headModule cx comments g.size decl)).2.path g.size := by
    obtain ⟨news', hgrows⟩ := exists_grows_declareType d cx comments g decl
    exact (hgrows.trans h).path (g.lt_size_alloc _)
  rw [hpath]
  cases decl with
  | classType name static generics superclass interfaces body =>
    obtain ⟨cs, hcs⟩ := exists_foldl_add_ensureConstructor
      (headModule cx comments g.size (.classType name static generics superclass interfaces body))
      (membersAdditions d (cx.enterModule g.size generics) g.size (g.alloc _).2 body.members)
    refine ⟨_, cs, ?_, refers_membersAdditions d (cx.enterModule g.size generics) g.size rfl
      body.members _ (g.lt_size_alloc _)⟩
    rw [get?_declareType]
    simp only [typeMethods, List.map_nil, List.append_nil]
    exact congrArg some hcs
  | enumType name interfaces constants body =>
    have hlt := g.lt_size_alloc (headModule cx comments g.size
      (.enumType name interfaces constants body))
    have hconstants := grows_declareConstants d cx.module (cx.enterModule g.size []) g.size _ hlt
      constants
    obtain ⟨news', hmembers⟩ := exists_grows_declareConstants d cx comments g name interfaces
      constants body
    have hown := refers_membersAdditions d (cx.enterModule g.size []) g.size rfl body.members _
      (Nat.lt_of_lt_of_le hlt hconstants.size)
    rw [hconstants.path hlt] at hown
    obtain ⟨cs, hcs⟩ := exists_foldl_add_ensureConstructor (headModule cx comments g.size
      (.enumType name interfaces constants body)) _
    refine ⟨_, cs, ?_, hown⟩
    rw [get?_declareType_enumType, hcs, constantsAdditions_self d (cx.enterModule g.size []) hcx _
      constants _ hlt (hmembers.trans h), Graph.size_alloc]
    rfl
  | interfaceType name generics parents body =>
    obtain ⟨opening, members, closing⟩ := body
    refine ⟨_, [], ?_, refers_interfaceMembersAdditions d (cx.enterModule g.size generics) g.size rfl
      members _ (g.lt_size_alloc _)⟩
    rw [declareType]
    refine (grows_declareInterfaceMembers d (cx.enterModule g.size generics) g.size _ rfl
      members).get?_alloc.trans ?_
    simp only [additionsTo, if_true, typeMethods, List.map_nil, List.append_nil]
    rfl
  | annotationType name bodyComments =>
    exact ⟨[], [], (Grows.refl _).get?_alloc, .of_untyped rfl⟩

theorem isEmpty_headModule (comments : List String) (id : ModuleId) (decl : TypeDecl) :
    (headModule cx comments id decl).IsEmpty := by
  cases decl <;> exact ⟨rfl, rfl, rfl, rfl, rfl, rfl, rfl⟩

/-- The module of the body of a constant refers to the enums in it. -/
theorem exists_module_declareConstantBody {enum : ModuleId} {name : String} {body : TypeBody Member}
    {g' : Graph} {news : ModuleId → List Addition}
    (h : Grows news (declareConstantBody d cx enum name g (some body)).2 g') :
    ∃ own, (declareConstantBody d cx enum name g (some body)).2.get? g.size =
        some (own.foldl Module.add (constantBody d g enum name body)) ∧
      Refers (g'.path g.size) (body.members.flatMap Member.types) own := by
  obtain ⟨opening, members, closing⟩ := body
  rw [declareConstantBody] at h ⊢
  have hlt := g.lt_size_alloc (constantBody d g enum name ⟨opening, members, closing⟩)
  have hgrows := grows_declareMembers d (cx.enterModule g.size []) g.size
    (g.alloc (constantBody d g enum name ⟨opening, members, closing⟩)).2 rfl members
  refine ⟨_, hgrows.get?_alloc, ?_⟩
  rw [additionsTo, if_pos rfl, (hgrows.trans h).path hlt]
  exact refers_membersAdditions d _ g.size rfl members _ hlt

/-- The inner classes of an enum are those of its constants. -/
theorem constantBodies_declareType (hcx : ∀ o ∈ cx.module, o < g.size) (comments : List String)
    (name : String) (interfaces : List TypeRef) (constants : List (EnumConstant Member))
    (body : TypeBody Member) :
    (declareType d cx comments g (.enumType name interfaces constants body)).2.constantBodies g.size =
      g.constantBodies g.size ++
        (constantClasses g.size (g.size + 1) constants).filter (· ≠ g.size) := by
  obtain ⟨opening, members, closing⟩ := body
  have hlt := g.lt_size_alloc (headModule cx comments g.size
    (.enumType name interfaces constants ⟨opening, members, closing⟩))
  have hconstants := constantBodies_declareConstants d (cx.enterModule g.size []) hcx constants _ hlt
  have hlt' := Nat.lt_of_lt_of_le hlt (grows_declareConstants d cx.module (cx.enterModule g.size [])
    g.size _ hlt constants).size
  have hmembers := (fills_declareMembers d (cx.enterModule g.size []) g.size _ rfl hlt'
    members).bodies g.size hlt' nofun
  rw [Graph.constantBodies_alloc, isConstantBodyOf_headModule, Graph.size_alloc] at hconstants
  simp only [Bool.false_eq_true, if_false, List.append_nil] at hconstants
  rw [declareType]
  refine (Graph.constantBodies_modify exists_foldl_ensureConstructor).trans
    ((Graph.constantBodies_modify (exists_foldl_addMethod _)).trans ?_)
  exact hmembers.trans hconstants

/-- The module around a type refers to the constants of the type, one behind another. -/
theorem exists_references_declareType {o : ModuleId} (hcx : cx.module = some o) (ho : o < g.size)
    {comments : List String} {decl : TypeDecl} {g' : Graph} {news : ModuleId → List Addition}
    (h : Grows news (declareType d cx comments g decl).2 g') :
    ∃ m, g'.get? o = some m ∧ typeReferences (g.path o) decl <:+: m.constants := by
  have hget := ((grows_declareType d cx comments g decl).trans h).get? o ho
  cases hm : g.get? o with
  | none => exact absurd (Graph.get?_eq_none_iff.mp hm) (Nat.not_le.mpr ho)
  | some m =>
    rw [hm, additionsTo, if_pos hcx] at hget
    refine ⟨_, hget, m.constants, (news o).filterMap Addition.constant?, ?_⟩
    rw [Module.constants_foldl_add, List.filterMap_append, filterMap_constant?_map,
      List.append_assoc]

end

/-! ## Enums in a graph -/

/-- The constant `c` of an enum, an instance of the module `k`. -/
def Graph.enumInstance (g : Graph) (c : EnumConstant Member) (k : ModuleId) : Constant :=
  { name := c.name
    type := none
    value := g.rubyName k ++ ".new" ++
      Ruby.argumentsText (c.arguments.map (Ruby.exprText fun _ => none)) false ++
      ".set_value_name(\"" ++ c.name ++ "\")"
    comments := c.comments }

/-- The module `i` is an enum with certain constants, which are instances of certain classes. -/
structure Graph.Enumerates (g : Graph) (declared : List Declared) (i : ModuleId) (m : Module)
    (name : String) (constants : List (EnumConstant Member)) (classes : List ModuleId) : Prop where
  isEnum : m.kind = .enum ∧ m.name = name
  classOf : List.Forall₂ (ClassOf declared i) constants classes
  /-- The inner classes of the enum are the bodies of its constants. -/
  bodies : g.constantBodies i = classes.filter (· ≠ i)
  instances : List.zipWith g.enumInstance constants classes <+: m.constants
  /-- The last methods keep the name of a constant, give it back, and list the constants in order. -/
  methods : ∃ own, m.methods = own ++
    [{ name := "set_value_name"
       static := false
       synchronized := false
       params := [{ name := "name", type := .string, variadic := false }]
       returns := .void
       generics := []
       body := .synthesized ["@value_name = name", "self"]
       localClasses := []
       comments := [] },
     { name := "to_s"
       static := false
       synchronized := false
       params := []
       returns := .string
       generics := []
       body := .synthesized ["@value_name"]
       localClasses := []
       comments := [] },
     { name := "values"
       static := true
       synchronized := false
       params := []
       returns := .array .object
       generics := []
       body := .synthesized ["[" ++ ", ".intercalate
         ((List.zipWith g.enumInstance constants classes).map Constant.rubyName) ++ "]"]
       localClasses := []
       comments := [] }]
  /-- The module around the enum refers to the constants, one behind another. -/
  known : ∀ o, m.owner.module = some o → ∃ outer, g.get? o = some outer ∧
    (constants.map fun c => enumReference (g.path i) c.name) <:+: outer.constants

section

variable {g g₀ : Graph} {news : ModuleId → List Addition} {later declared : List Declared}
  {i : ModuleId}

/-- The instances are called what the constants are called. -/
theorem rubyName_enumInstance {constants : List (EnumConstant Member)} {classes : List ModuleId}
    (h : constants.length = classes.length) :
    (List.zipWith g.enumInstance constants classes).map Constant.rubyName =
      constants.map fun c => Text.capitalize c.name := by
  rw [List.map_zipWith]
  induction constants generalizing classes with
  | nil => rfl
  | cons c constants ih =>
    cases classes with
    | nil => cases h
    | cons k classes =>
      rw [List.zipWith_cons_cons, ih (Nat.succ.inj h), List.map_cons]
      rfl

/-- A module that is not there yet has no inner classes. -/
theorem constantBodies_size (hg : g.Owned) (h : Grows news g₀ g) :
    g₀.constantBodies g₀.size = [] := by
  refine List.filter_eq_nil_iff.mpr fun k hk => ?_
  have hlt := List.mem_range.mp hk
  cases hm : g₀.get? k with
  | none => simp
  | some m =>
    intro hbody
    obtain ⟨m', hm', howner⟩ := h.get?_view Module.owner hm Module.owner_add
    simp only [Option.any_some, Module.isConstantBodyOf, Bool.and_eq_true, decide_eq_true_eq] at hbody
    have hbehind := hg k g₀.size (by rw [Graph.owner?_eq hm', howner, hbody.2])
    exact Nat.lt_asymm hlt hbehind

/-- The module of an enum, made of its constants, its members and the methods of every enum. -/
theorem enumerates_declareType {cx : Context} {comments : List String} {name : String}
    {interfaces : List TypeRef} {constants : List (EnumConstant Member)} {body : TypeBody Member}
    (hcx : ∀ o ∈ cx.module, o < g₀.size) (hg : g.Owned)
    {inBody : Bool} (hds : (TypeDecl.enumType name interfaces constants body).declared inBody <+:
      declared.drop g₀.size)
    (hset : Settled g₀.size
      (declareType .ruby cx comments g₀ (.enumType name interfaces constants body)).2 g)
    (own : List Addition) (cs : List Constructor) :
    g.Enumerates declared g₀.size
      (((List.zipWith g.enumInstance constants
        (constantClasses g₀.size (g₀.size + 1) constants)).map Addition.constant ++ own ++
        (enumMethods (constants.map fun c => Text.capitalize c.name)).map Addition.method ++
        cs.map Addition.constructor).foldl Module.add
          (headModule cx comments g₀.size (.enumType name interfaces constants body)))
      name constants (constantClasses g₀.size (g₀.size + 1) constants) := by
  obtain ⟨news, hgrows⟩ := hset.grows
  obtain ⟨news', htype⟩ := exists_grows_declareType .ruby cx comments g₀
    (.enumType name interfaces constants body)
  have hlt := g₀.lt_size_alloc (headModule cx comments g₀.size
    (.enumType name interfaces constants body))
  have hempty := isEmpty_headModule cx comments g₀.size (.enumType name interfaces constants body)
  have hclasses : List.Forall₂ (ClassOf declared g₀.size) constants
      (constantClasses g₀.size (g₀.size + 1) constants) := by
    refine classOf_constantClasses declared g₀.size constants (g₀.size + 1) (Nat.lt_succ_self _) ?_
    obtain ⟨opening, members, closing⟩ := body
    obtain ⟨more, hmore⟩ := hds
    rw [← List.drop_drop, ← hmore, TypeDecl.declared]
    exact ⟨membersDeclared members ++ more, by simp⟩
  refine ⟨⟨?_, ?_⟩, hclasses, ?_, ?_, ?_, fun o ho => ?_⟩
  · exact Module.foldl_add_eq Module.kind_add _ _
  · exact Module.foldl_add_eq Module.name_add _ _
  · rw [hset.bodies g₀.size (Nat.le_refl _) (Nat.lt_of_lt_of_le hlt htype.size),
      constantBodies_declareType .ruby cx hcx, constantBodies_size hg
      ((grows_declareType .ruby cx comments g₀ _).trans hgrows), List.nil_append]
  · simp only [Module.foldl_add_of_isEmpty hempty, List.filterMap_append, List.append_assoc,
      filterMap_constant?_map]
    exact List.prefix_append _ _
  · refine ⟨own.filterMap Addition.method?, ?_⟩
    rw [rubyName_enumInstance hclasses.length_eq]
    generalize List.zipWith g.enumInstance constants _ = instances
    simp [Module.foldl_add_of_isEmpty hempty, List.filterMap_map, Function.comp_def,
      Addition.method?, enumMethods, Method.ofLines]
  · rw [Module.foldl_add_eq Module.owner_add, owner_headModule] at ho
    obtain ⟨outer, houter, hrefs⟩ := exists_references_declareType .ruby cx ho (hcx o ho) hgrows
    refine ⟨outer, houter, ?_⟩
    rw [(htype.trans hgrows).path hlt, path_alloc (by rw [owner_headModule]; exact ho) (hcx o ho)]
    exact hrefs

/-- The constants of the module `i` that come from enums: instances of certain classes for its own
constants, and references to the constants of the enums directly inside of it, to those of one enum in
a row. -/
structure Graph.HasEnumConstants (g : Graph) (i : ModuleId) (m : Module)
    (constants : List (EnumConstant Member)) (classes : List ModuleId) (types : List TypeDecl) :
    Prop where
  untyped : m.constants.filter (·.type.isNone) =
    List.zipWith g.enumInstance constants classes ++ references (g.path i) types
  rows : ∀ decl ∈ types, typeReferences (g.path i) decl <:+: m.constants

/-- A module that was empty of constants, with instances and then with what refers to enums. -/
theorem Refers.hasEnumConstants {types : List TypeDecl} {own : List Addition}
    (h : Refers (g.path i) types own) {m : Module} (hm : m.constants = [])
    (constants : List (EnumConstant Member)) (classes : List ModuleId) (methods : List Method)
    (cs : List Constructor) :
    g.HasEnumConstants i (((List.zipWith g.enumInstance constants classes).map Addition.constant ++
      own ++ methods.map Addition.method ++ cs.map Addition.constructor).foldl Module.add m)
      constants classes types := by
  have hinstances : ∀ c ∈ List.zipWith g.enumInstance constants classes, c.type = none := by
    intro c hc
    rw [← List.map_uncurry_zip_eq_zipWith] at hc
    obtain ⟨⟨constant, k⟩, -, rfl⟩ := List.mem_map.mp hc
    rfl
  refine ⟨?_, fun decl hdecl => (h.rows decl hdecl).trans ?_⟩
  · rw [Module.untyped_foldl_add hm]
    simp only [untyped_append, untyped_methods, untyped_constructors, List.append_nil, h.constants,
      untyped_constants hinstances]
  · rw [Module.constants_foldl_add, hm, List.nil_append, List.append_assoc _ (methods.map _),
      List.filterMap_append, List.filterMap_append]
    exact List.infix_append _ _ _

/-- The module of a type. -/
theorem Graph.Makes.exists_type {decl : TypeDecl} {inBody : Bool}
    (h : g.Makes .ruby (declared.drop i) i (.type decl inBody)) (hg : g.Owned) :
    ∃ m classes, g.get? i = some m ∧ g.HasEnumConstants i m decl.constants classes decl.types ∧
      ∀ name interfaces constants body, decl = .enumType name interfaces constants body →
        g.Enumerates declared i m name constants classes := by
  obtain ⟨hds, cx, comments, g₀, rfl, hcx, hset⟩ := h
  obtain ⟨news, hgrows⟩ := hset.grows
  obtain ⟨own, cs, hget, hown⟩ := exists_module_declareType .ruby cx hcx hgrows
  rw [← hset.get? g₀.size (Nat.le_refl _) (Graph.lt_of_get? hget)] at hget
  refine ⟨_, _, hget, hown.hasEnumConstants (isEmpty_headModule cx comments g₀.size decl).constants
    decl.constants (constantClasses g₀.size (g₀.size + 1) decl.constants) _ cs, ?_⟩
  rintro name interfaces constants body rfl
  exact enumerates_declareType hcx hg hds hset own cs

/-- The module of the body of a constant. -/
theorem Graph.Makes.exists_constantBody {name : String} {body : TypeBody Member}
    (h : g.Makes .ruby later i (.constantBody name body)) :
    ∃ m, g.get? i = some m ∧
      g.HasEnumConstants i m [] [] (body.members.flatMap Member.types) := by
  obtain ⟨cx, enum, g₀, rfl, -, hset⟩ := h
  obtain ⟨news, hgrows⟩ := hset.grows
  obtain ⟨own, hget, hown⟩ := exists_module_declareConstantBody .ruby cx hgrows
  rw [← hset.get? g₀.size (Nat.le_refl _) (Graph.lt_of_get? hget)] at hget
  refine ⟨_, hget, ?_⟩
  simpa using hown.hasEnumConstants rfl [] [] [] []

end

/-- **The constants that come from enums**, in every module of a tree's graph: the instances of its own
constants, if the module is an enum, and references to the constants of the enums directly inside of
it. With an enum go the inner classes of its constants and its methods. -/
theorem enumerates_ofTree {tree : Node} {g : Graph} (h : Graph.ofTree .ruby tree = .ok g) :
    ∃ u, Grammar.readUnit .ruby tree = .ok u ∧ g.size = u.declared.length ∧
      ∀ i x, u.declared[i]? = some x → ∃ m classes, g.get? i = some m ∧
        g.HasEnumConstants i m x.constants classes x.types ∧
        ∀ name interfaces constants body inBody,
          x = .type (.enumType name interfaces constants body) inBody →
            g.Enumerates u.declared i m name constants classes := by
  obtain ⟨u, hu, rfl⟩ := ofTree_eq_ok h
  have hs := sound_ofUnit .ruby (Grammar.tidy_of_readUnit hu)
  obtain ⟨hsize, hmakes⟩ := makes_ofUnit .ruby u
  refine ⟨u, hu, hsize, fun i x hx => ?_⟩
  have hmade := hmakes i x hx
  cases x with
  | type decl inBody =>
    obtain ⟨m, classes, hm, hconstants, henum⟩ := hmade.exists_type hs.owned
    refine ⟨m, classes, hm, hconstants, ?_⟩
    rintro name interfaces constants body _ ⟨⟩
    exact henum name interfaces constants body rfl
  | constantBody name body =>
    obtain ⟨m, hm, hconstants⟩ := hmade.exists_constantBody
    exact ⟨m, [], hm, hconstants, nofun⟩

/-- A class with an enum that has an argument, a body and in it another enum, and with an enum in a
method. -/
def chest : Node :=
  Phrase.compilationUnit none [] [Phrase.typeDeclaration []
    (Phrase.classDeclaration "Chest" [] none []
      [Phrase.memberType [] (Phrase.enumDeclaration "Lid" []
        [Phrase.enumConstant "OPEN" ["1"] none,
         Phrase.enumConstant "SHUT" []
          (some [Phrase.memberType [] (Phrase.enumDeclaration "Lock" []
            [Phrase.enumConstant "PIN" [] none] [])])] []),
       Phrase.method [] "void" "fill" []
        (some [Phrase.localType (Phrase.typeDeclaration []
          (Phrase.enumDeclaration "Load" [] [Phrase.enumConstant "full" [] none] []))])])]

/-- The lines of a method that stands for no source. -/
def MethodBody.lines : MethodBody → List String
  | .synthesized lines => lines
  | .pending _ | .abstract | .native => []

theorem enumerates_ofTree_chest : ∃ g, Graph.ofTree .ruby chest = .ok g ∧
    g.modules.toList.map (fun m => m.constants.map fun c => (c.name, c.value)) =
      [[("OPEN", "Chest::Lid::OPEN"), ("SHUT", "Chest::Lid::SHUT"), ("full", "Chest::Load::Full")],
       [("OPEN", "Lid.new(1).set_value_name(\"OPEN\")"),
        ("SHUT", "SHUT_Body.new.set_value_name(\"SHUT\")")],
       [("PIN", "Chest::Lid::SHUT_Body::Lock::PIN")],
       [("PIN", "Lock.new.set_value_name(\"PIN\")")],
       [("full", "Load.new.set_value_name(\"full\")")]] ∧
    g.constantBodies 1 = [2] ∧
    (g.modules.toList.flatMap Module.methods).map (fun method =>
      (method.name, method.static, method.params.map Param.name, method.body.lines)) =
      [("fill", false, [], []),
       ("set_value_name", false, ["name"], ["@value_name = name", "self"]),
       ("to_s", false, [], ["@value_name"]), ("values", true, [], ["[OPEN, SHUT]"]),
       ("set_value_name", false, ["name"], ["@value_name = name", "self"]),
       ("to_s", false, [], ["@value_name"]), ("values", true, [], ["[PIN]"]),
       ("set_value_name", false, ["name"], ["@value_name = name", "self"]),
       ("to_s", false, [], ["@value_name"]), ("values", true, [], ["[Full]"])] ∧
    ∃ u, Grammar.readUnit .ruby chest = .ok u ∧ g.size = u.declared.length ∧
      ∀ i x, u.declared[i]? = some x → ∃ m classes, g.get? i = some m ∧
        g.HasEnumConstants i m x.constants classes x.types ∧
        ∀ name interfaces constants body inBody,
          x = .type (.enumType name interfaces constants body) inBody →
            g.Enumerates u.declared i m name constants classes := by
  have hok : (Graph.ofTree .ruby chest).toOption.map (fun g =>
      (g.modules.toList.map (fun m => m.constants.map fun c => (c.name, c.value)),
        g.constantBodies 1)) =
      some ([[("OPEN", "Chest::Lid::OPEN"), ("SHUT", "Chest::Lid::SHUT"),
          ("full", "Chest::Load::Full")],
        [("OPEN", "Lid.new(1).set_value_name(\"OPEN\")"),
          ("SHUT", "SHUT_Body.new.set_value_name(\"SHUT\")")],
        [("PIN", "Chest::Lid::SHUT_Body::Lock::PIN")],
        [("PIN", "Lock.new.set_value_name(\"PIN\")")],
        [("full", "Load.new.set_value_name(\"full\")")]], [2]) := by
    decide +kernel
  have hmethods : (Graph.ofTree .ruby chest).toOption.map (fun g =>
      (g.modules.toList.flatMap Module.methods).map fun method =>
        (method.name, method.static, method.params.map Param.name, method.body.lines)) =
      some [("fill", false, [], []),
        ("set_value_name", false, ["name"], ["@value_name = name", "self"]),
        ("to_s", false, [], ["@value_name"]), ("values", true, [], ["[OPEN, SHUT]"]),
        ("set_value_name", false, ["name"], ["@value_name = name", "self"]),
        ("to_s", false, [], ["@value_name"]), ("values", true, [], ["[PIN]"]),
        ("set_value_name", false, ["name"], ["@value_name = name", "self"]),
        ("to_s", false, [], ["@value_name"]), ("values", true, [], ["[Full]"])] := by
    decide +kernel
  cases h : Graph.ofTree .ruby chest with
  | error e => rw [h] at hok; cases hok
  | ok g =>
    rw [h] at hok hmethods
    obtain ⟨hconstants, hbodies⟩ := Prod.mk.inj (Option.some.inj hok)
    exact ⟨g, rfl, hconstants, hbodies, Option.some.inj hmethods, enumerates_ofTree h⟩

end Rubify.Program
