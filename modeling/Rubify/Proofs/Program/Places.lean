import Rubify.Proofs.Program.Scopes

/-!
# Which module is made for what

Modules are made in the order of the text (`CompilationUnit.declared`), so the module of the `i`-th
declaration is the module `i`.

A declaration that is done is settled: what is declared later adds to the modules around it, and makes
modules of its own (`Settled`). Everything about the module of a declaration can therefore be read off
the graph that the declaration itself leaves behind (`Graph.Makes`), wherever in the unit it stands.

Headline:
* **`makes_ofUnit`**: every declaration of a unit makes the module at its place.
-/

namespace Rubify.Program

open Grammar (Dialect)
open Syntax

theorem exists_foldl_addMethod (methods : List Method) (m : Module) :
    ∃ as : List Addition, methods.foldl Module.addMethod m = as.foldl Module.add m :=
  ⟨methods.map .method, by rw [List.foldl_map]; rfl⟩

/-! ## Inner classes of a module -/

/-- Whether the module is an inner class of the module `id` that stands in none of its methods. -/
def Module.isConstantBodyOf (m : Module) (id : ModuleId) : Bool :=
  m.kind = .innerClass && m.owner = ⟨some id, none⟩

/-- The inner classes of the module `id` that stand in none of its methods, in order. -/
def Graph.constantBodies (g : Graph) (id : ModuleId) : List ModuleId :=
  (List.range g.size).filter fun k => (g.get? k).any (·.isConstantBodyOf id)

section

variable {g : Graph} {id k : ModuleId} {f : Module → Module}

theorem Graph.constantBodies_alloc (g : Graph) (m : Module) (id : ModuleId) :
    (g.alloc m).2.constantBodies id =
      g.constantBodies id ++ if m.isConstantBodyOf id then [g.size] else [] := by
  unfold constantBodies
  rw [size_alloc, List.range_succ, List.filter_append]
  congr 1
  · refine List.filter_congr fun k hk => ?_
    rw [get?_alloc, if_neg (Nat.ne_of_lt (List.mem_range.mp hk))]
  · simp [get?_alloc, List.filter_cons]

theorem Graph.constantBodies_modify (hf : ∀ m, ∃ as : List Addition, f m = as.foldl Module.add m) :
    (g.modify id f).constantBodies k = g.constantBodies k := by
  have hview (m : Module) : (f m).isConstantBodyOf k = m.isConstantBodyOf k := by
    obtain ⟨as, has⟩ := hf m
    simp only [Module.isConstantBodyOf, has, Module.foldl_add_eq Module.kind_add,
      Module.foldl_add_eq Module.owner_add]
  unfold constantBodies
  rw [size_modify]
  refine List.filter_congr fun j _ => ?_
  rw [get?_modify, Option.any_map]
  congr 1
  funext m
  by_cases hj : j = id <;> simp [hj, hview]

/-- A declared class that is an inner class stands in a method. -/
theorem isConstantBodyOf_headModule (cx : Context) (comments : List String) (id : ModuleId)
    (decl : TypeDecl) (k : ModuleId) :
    (headModule cx comments id decl).isConstantBodyOf k = false := by
  obtain ⟨module, method, typeParams, localTypes⟩ := cx
  cases decl with
  | classType name static generics superclass interfaces body =>
    cases method <;> cases module <;> cases static <;>
      simp [Module.isConstantBodyOf, headModule, classModule, Context.kindOf, Context.owner]
  | enumType name interfaces constants body => simp [Module.isConstantBodyOf, headModule]
  | interfaceType name generics parents body | annotationType name comments =>
    cases module <;> simp [Module.isConstantBodyOf, headModule, Context.kindOf]

end

/-! ## Settled modules -/

/-- From the place `i` on, the modules of `g` and their inner classes are the same in `g'`; those in
front of `i` may have grown. -/
structure Settled (i : ModuleId) (g g' : Graph) : Prop where
  grows : ∃ news, Grows news g g'
  get? : ∀ k, i ≤ k → k < g.size → g'.get? k = g.get? k
  bodies : ∀ k, i ≤ k → k < g.size → g'.constantBodies k = g.constantBodies k

namespace Settled

variable {i j id : ModuleId} {g g₁ g₂ : Graph} {f : Module → Module}

theorem refl (i : ModuleId) (g : Graph) : Settled i g g :=
  ⟨⟨_, .refl g⟩, fun _ _ _ => rfl, fun _ _ _ => rfl⟩

theorem trans (h : Settled i g g₁) (h' : Settled i g₁ g₂) : Settled i g g₂ := by
  obtain ⟨news, hnews⟩ := h.grows
  obtain ⟨news', hnews'⟩ := h'.grows
  refine ⟨⟨_, hnews.trans hnews'⟩, fun k hi hk => ?_, fun k hi hk => ?_⟩
  · rw [h'.get? k hi (Nat.lt_of_lt_of_le hk hnews.size), h.get? k hi hk]
  · rw [h'.bodies k hi (Nat.lt_of_lt_of_le hk hnews.size), h.bodies k hi hk]

theorem mono (h : Settled i g g₁) (hij : i ≤ j) : Settled j g g₁ :=
  ⟨h.grows, fun k hj => h.get? k (Nat.le_trans hij hj), fun k hj => h.bodies k (Nat.le_trans hij hj)⟩

/-- An addition in front of the place. -/
theorem modify (hid : id < i) (hf : ∀ m, ∃ as : List Addition, f m = as.foldl Module.add m) :
    Settled i g (g.modify id f) := by
  refine ⟨(Grows.refl g).exists_modify id hf, fun k hi _ => ?_,
    fun k _ _ => Graph.constantBodies_modify hf⟩
  have hne : k ≠ id := Nat.ne_of_gt (Nat.lt_of_lt_of_le hid hi)
  simp [Graph.get?_modify, hne]

end Settled

/-! ## Making modules -/

/-- The module `i` is made for a declaration, as part of declaring `later`, and is settled since. -/
def Graph.Makes (d : Dialect) (g : Graph) (later : List Declared) (i : ModuleId) : Declared → Prop
  | .type decl inBody => decl.declared inBody <+: later ∧ ∃ cx comments g₀, g₀.size = i ∧
      (∀ o ∈ cx.module, o < i) ∧ Settled i (declareType d cx comments g₀ decl).2 g
  | .constantBody name body => ∃ cx enum g₀, g₀.size = i ∧ enum < i ∧
      Settled i (declareConstantBody d cx enum name g₀ (some body)).2 g

/-- The graph `g'` is `g` with a module for each of some declarations. No module of `g` gets a body of
an enum constant, except that of the enum whose constants are being declared. -/
structure Fills (d : Dialect) (ds : List Declared) (enum : Option ModuleId) (g g' : Graph) : Prop where
  size : g'.size = g.size + ds.length
  makes : ∀ j x, ds[j]? = some x → g'.Makes d (ds.drop j) (g.size + j) x
  bodies : ∀ k < g.size, enum ≠ some k → g'.constantBodies k = g.constantBodies k

section

variable {d : Dialect} {g g' g₁ g₂ : Graph} {ds ds₁ ds₂ later more : List Declared} {x : Declared}
  {i id : ModuleId} {enum inner : Option ModuleId} {m : Module} {f : Module → Module}
  {news : ModuleId → List Addition}

theorem Graph.Makes.settled (h : g.Makes d later i x) (hs : Settled i g g') :
    g'.Makes d later i x := by
  cases x with
  | type decl inBody =>
    obtain ⟨hlater, cx, comments, g₀, hsize, hcx, hset⟩ := h
    exact ⟨hlater, cx, comments, g₀, hsize, hcx, hset.trans hs⟩
  | constantBody name body =>
    obtain ⟨cx, enum, g₀, hsize, henum, hset⟩ := h
    exact ⟨cx, enum, g₀, hsize, henum, hset.trans hs⟩

theorem Graph.Makes.append (h : g.Makes d later i x) (more : List Declared) :
    g.Makes d (later ++ more) i x := by
  cases x with
  | type decl inBody => exact ⟨h.1.trans (List.prefix_append later more), h.2⟩
  | constantBody name body => exact h

namespace Fills

theorem nil (g : Graph) : Fills d [] enum g g :=
  ⟨rfl, nofun, fun _ _ _ => rfl⟩

theorem weaken (h : Fills d ds none g g') : Fills d ds enum g g' :=
  ⟨h.size, h.makes, fun k hk _ => h.bodies k hk nofun⟩

/-- Seen from a place behind the modules that it adds to, a declaration settles everything. -/
theorem settled (h : Fills d ds enum g g') (hg : Grows news g g') (hnews : ∀ k, i ≤ k → news k = [])
    (henum : ∀ k ∈ enum, k < i) : Settled i g g' := by
  refine ⟨⟨news, hg⟩, fun k hi hk => ?_, fun k hi hk => h.bodies k hk fun he => ?_⟩
  · simp [hg.get? k hk, hnews k hi]
  · exact Nat.not_lt.mpr hi (henum k he)

theorem append (h₁ : Fills d ds₁ enum g g₁) (h₂ : Fills d ds₂ enum g₁ g₂) (hg : Grows news g₁ g₂)
    (hnews : ∀ k, g.size ≤ k → news k = []) (henum : ∀ k ∈ enum, k < g.size) :
    Fills d (ds₁ ++ ds₂) enum g g₂ := by
  refine ⟨?_, fun j x hx => ?_, fun k hk he => ?_⟩
  · rw [h₂.size, h₁.size, List.length_append, Nat.add_assoc]
  · by_cases hj : j < ds₁.length
    · rw [List.getElem?_append_left hj] at hx
      rw [List.drop_append_of_le_length (Nat.le_of_lt hj)]
      have hset := (h₂.settled hg hnews henum).mono (Nat.le_add_right g.size j)
      exact ((h₁.makes j x hx).settled hset).append ds₂
    · have hle := Nat.le_of_not_lt hj
      have hmade := h₂.makes (j - ds₁.length) x (by rw [← hx, List.getElem?_append_right hle])
      have hplace : g₁.size + (j - ds₁.length) = g.size + j := by
        rw [h₁.size]
        omega
      rw [hplace] at hmade
      rwa [List.drop_append, List.drop_eq_nil_of_le hle, List.nil_append]
  · rw [h₂.bodies k (by rw [h₁.size]; omega) he, h₁.bodies k hk he]

/-- An addition to a module that was there before. -/
theorem modify (h : Fills d ds enum g g₁) (hid : id < g.size)
    (hf : ∀ m, ∃ as : List Addition, f m = as.foldl Module.add m) :
    Fills d ds enum g (g₁.modify id f) := by
  refine ⟨by rw [Graph.size_modify, h.size], fun j x hx => ?_, fun k hk he => ?_⟩
  · exact (h.makes j x hx).settled (.modify (Nat.lt_of_lt_of_le hid (Nat.le_add_right _ j)) hf)
  · rw [Graph.constantBodies_modify hf, h.bodies k hk he]

/-- A module is made, and then what is declared inside of it. -/
theorem alloc (inner : Option ModuleId) (m : Module) (hx : g'.Makes d (x :: ds) g.size x)
    (h : Fills d ds inner (g.alloc m).2 g') (hinner : ∀ k ∈ inner, g.size ≤ k)
    (hm : ∀ k, enum ≠ some k → m.isConstantBodyOf k = false) : Fills d (x :: ds) enum g g' := by
  refine ⟨?_, fun j y hy => ?_, fun k hk he => ?_⟩
  · rw [h.size, Graph.size_alloc, List.length_cons]
    omega
  · cases j with
    | zero =>
      cases hy
      exact hx
    | succ j =>
      have hmade := h.makes j y hy
      rw [Graph.size_alloc, Nat.add_right_comm] at hmade
      exact hmade
  · have hk' : k < (g.alloc m).2.size := Nat.lt_trans hk (g.lt_size_alloc m)
    rw [h.bodies k hk' fun hi => Nat.not_lt.mpr (hinner k hi) hk, Graph.constantBodies_alloc,
      hm k he]
    simp

theorem addEnumConstant (h : Fills d ds enum g g₁) {outer : Option ModuleId} (hid : id < g.size)
    (houter : ∀ o ∈ outer, o < g.size) (c : Constant) :
    Fills d ds enum g (g₁.addEnumConstant outer id c) := by
  unfold Graph.addEnumConstant
  refine Fills.modify ?_ hid fun m => ⟨[.constant c], rfl⟩
  cases outer with
  | none => exact h
  | some o => exact h.modify (houter o rfl) fun m => ⟨[.constant _], rfl⟩

end Fills

theorem additionsTo_of_lt {o : Option ModuleId} {n k : ModuleId} (h : ∀ j ∈ o, j < n) (hk : n ≤ k) :
    additionsTo o news k = [] :=
  if_neg fun ho => Nat.not_lt.mpr hk (h k ho)

/-- A context inside the module `id`. -/
theorem Context.module_lt {cx : Context} {n : Nat} (hcx : cx.module = some id) (hid : id < n) :
    ∀ o ∈ cx.module, o < n := by
  intro o ho
  cases hcx.symm.trans ho
  exact hid

theorem BodyGrows.module_lt {types : List TypeDecl} {s s' : BodyState} (h : BodyGrows types s s')
    (hs : ∀ o ∈ s.cx.module, o < s.graph.size) : ∀ o ∈ s'.cx.module, o < s'.graph.size := by
  rw [h.module]
  exact fun o ho => Nat.lt_of_lt_of_le (hs o ho) h.grows.size

/-- One body behind another. -/
theorem Fills.body {types types' : List TypeDecl} {s s₁ s₂ : BodyState}
    (h : Fills d ds none s.graph s₁.graph) (hg : BodyGrows types s s₁)
    (hs : ∀ o ∈ s.cx.module, o < s.graph.size) (h' : Fills d ds₁ none s₁.graph s₂.graph)
    (hg' : BodyGrows types' s₁ s₂) : Fills d (ds ++ ds₁) none s.graph s₂.graph :=
  h.append h' hg'.grows (fun _ hk => additionsTo_of_lt (by rw [hg.module]; exact hs) hk) nofun

/-- A type makes its module, and then what is declared inside of it. -/
theorem Fills.type (inner : Option ModuleId) {cx : Context} {comments : List String} {decl : TypeDecl}
    {inBody : Bool} (hcx : ∀ o ∈ cx.module, o < g.size)
    (hds : decl.declared inBody = .type decl inBody :: ds)
    (h : Fills d ds inner (g.alloc (headModule cx comments g.size decl)).2
      (declareType d cx comments g decl).2) (hinner : ∀ k ∈ inner, g.size ≤ k) :
    Fills d (decl.declared inBody) none g (declareType d cx comments g decl).2 := by
  rw [hds]
  refine Fills.alloc inner _ ⟨?_, cx, comments, g, rfl, hcx, .refl _ _⟩ h hinner fun k _ =>
    isConstantBodyOf_headModule cx comments g.size decl k
  exact hds ▸ List.prefix_rfl

end

/-! ## Declaring makes modules in order -/

section

variable (d : Dialect)

mutual

theorem fills_declareType (inBody : Bool) (cx : Context) (comments : List String) (g : Graph)
    (hcx : ∀ o ∈ cx.module, o < g.size) : ∀ decl : TypeDecl,
    Fills d (decl.declared inBody) none g (declareType d cx comments g decl).2
  | .classType name static generics superclass interfaces ⟨opening, members, closing⟩ => by
    refine Fills.type none hcx (by rw [TypeDecl.declared]) ?_ nofun
    rw [declareType]
    exact (fills_declareMembers (cx.enterModule g.size generics) g.size _ rfl (g.lt_size_alloc _)
      members).modify (g.lt_size_alloc _) exists_foldl_ensureConstructor
  | .enumType name interfaces constants ⟨opening, members, closing⟩ => by
    refine Fills.type (some g.size) hcx (by rw [TypeDecl.declared]) ?_
      fun k hk => Nat.le_of_eq (Option.some.inj hk)
    rw [declareType]
    refine Fills.modify (Fills.modify ?_ (g.lt_size_alloc _) (exists_foldl_addMethod _))
      (g.lt_size_alloc _) exists_foldl_ensureConstructor
    have hconstants := fills_declareConstants cx.module (cx.enterModule g.size []) g.size _
      (g.lt_size_alloc (headModule cx comments g.size (.enumType name interfaces constants
        ⟨opening, members, closing⟩)))
      (fun o ho => Nat.lt_trans (hcx o ho) (g.lt_size_alloc _)) constants
    have hid := Nat.lt_of_lt_of_le (g.lt_size_alloc _) (Nat.le.intro hconstants.size.symm)
    have hlt : ∀ k ∈ some g.size, k < (g.alloc (headModule cx comments g.size (.enumType name
        interfaces constants ⟨opening, members, closing⟩))).2.size := by
      rintro k ⟨⟩
      exact g.lt_size_alloc _
    exact hconstants.append
      (fills_declareMembers (cx.enterModule g.size []) g.size _ rfl hid members).weaken
      (grows_declareMembers d (cx.enterModule g.size []) g.size _ rfl members)
      (fun k hk => additionsTo_of_lt hlt hk) hlt
  | .interfaceType name generics parents ⟨opening, members, closing⟩ => by
    refine Fills.type none hcx (by rw [TypeDecl.declared]) ?_ nofun
    rw [declareType]
    exact fills_declareInterfaceMembers (cx.enterModule g.size generics) g.size _ rfl
      (g.lt_size_alloc _) members
  | .annotationType name bodyComments => by
    refine Fills.type none hcx (by rw [TypeDecl.declared]) ?_ nofun
    rw [declareType]
    exact .nil _

theorem fills_declareMembers (cx : Context) (id : ModuleId) (g : Graph) (hcx : cx.module = some id)
    (hid : id < g.size) : ∀ members : List Member,
    Fills d (membersDeclared members) none g (declareMembers d cx id g members)
  | [] => by
    rw [declareMembers, membersDeclared]
    exact .nil g
  | m :: rest => by
    have hm := fills_declareMember cx id g hcx hid m
    have hid' := Nat.lt_of_lt_of_le hid (Nat.le.intro hm.size.symm)
    rw [declareMembers, membersDeclared]
    exact hm.append (fills_declareMembers cx id _ hcx hid' rest)
      (grows_declareMembers d cx id _ hcx rest)
      (fun k hk => additionsTo_of_lt (by rintro j ⟨⟩; exact hid) hk) nofun

theorem fills_declareMember (cx : Context) (id : ModuleId) (g : Graph) (hcx : cx.module = some id)
    (hid : id < g.size) : ∀ m : Member, Fills d m.declared none g (declareMember d cx id g m)
  | .empty _ => by
    rw [declareMember, Member.declared]
    exact .nil g
  | .initializer comments body => by
    rw [declareMember, Member.declared]
    exact (fills_lowerAll ⟨g, cx.enterMethod "static" true [], []⟩ (Context.module_lt hcx hid)
      body).modify hid fun m => ⟨[.block _], rfl⟩
  | .fields comments static final declarators => by
    rw [declareMember, Member.declared]
    exact (Fills.nil g).modify hid fun m => ⟨_, addFields_eq d cx comments static final declarators m⟩
  | .method signature static synchronized body => by
    rw [declareMember, Member.declared]
    exact (fills_lowerMethodBody ⟨g, cx.enterMethod signature.name static signature.generics, []⟩
      (Context.module_lt hcx hid) body).modify hid fun m => ⟨[.method _], rfl⟩
  | .constructor comments generics params invocation body => by
    rw [declareMember, Member.declared]
    exact (fills_lowerAll ⟨g, cx.enterMethod "initialize" false generics, []⟩
      (Context.module_lt hcx hid) body).modify hid fun m => ⟨[.constructor _], rfl⟩
  | .type comments decl => by
    rw [declareMember, Member.declared]
    exact fills_declareType false cx comments g (Context.module_lt hcx hid) decl

theorem fills_declareConstants (outer : Option ModuleId) (cx : Context) (id : ModuleId) (g : Graph)
    (hid : id < g.size) (houter : ∀ o ∈ outer, o < g.size) :
    ∀ constants : List (EnumConstant Member),
    Fills d (constantsDeclared constants) (some id) g (declareConstants d outer cx id g constants)
  | [] => by
    rw [declareConstants, constantsDeclared]
    exact .nil g
  | ⟨comments, name, arguments, body⟩ :: rest => by
    have hbody := (fills_declareConstantBody cx id name g hid body).addEnumConstant hid houter
      (enumConstant d ((declareConstantBody d cx id name g body).2.rubyName
        (declareConstantBody d cx id name g body).1) name (arguments.map (exprText d cx)) comments)
    have hle := Nat.le.intro hbody.size.symm
    have hid' := Nat.lt_of_lt_of_le hid hle
    rw [declareConstants, constantsDeclared]
    refine hbody.append (fills_declareConstants outer cx id _ hid'
      (fun o ho => Nat.lt_of_lt_of_le (houter o ho) hle) rest)
      (grows_declareConstants d outer cx id _ hid' rest) (fun k hk => ?_) (by rintro k ⟨⟩; exact hid)
    rw [constantsAdditions_eq (Nat.ne_of_gt (Nat.lt_of_lt_of_le hid hk))]
    exact additionsTo_of_lt houter hk

theorem fills_declareConstantBody (cx : Context) (id : ModuleId) (name : String) (g : Graph)
    (hid : id < g.size) : ∀ body : Option (TypeBody Member),
    Fills d (constantBodyDeclared name body) (some id) g (declareConstantBody d cx id name g body).2
  | none => by
    rw [declareConstantBody, constantBodyDeclared]
    exact .nil g
  | some ⟨opening, members, closing⟩ => by
    rw [constantBodyDeclared]
    refine Fills.alloc none (constantBody d g id name ⟨opening, members, closing⟩)
      ⟨cx, id, g, rfl, hid, .refl _ _⟩ ?_ nofun fun k hk => ?_
    · rw [declareConstantBody]
      exact fills_declareMembers (cx.enterModule g.size []) g.size _ rfl (g.lt_size_alloc _) members
    · simpa [Module.isConstantBodyOf, constantBody] using hk

theorem fills_declareInterfaceMembers (cx : Context) (id : ModuleId) (g : Graph)
    (hcx : cx.module = some id) (hid : id < g.size) : ∀ members : List InterfaceMember,
    Fills d (interfaceDeclared members) none g (declareInterfaceMembers d cx id g members)
  | [] => by
    rw [declareInterfaceMembers, interfaceDeclared]
    exact .nil g
  | m :: rest => by
    have hm := fills_declareInterfaceMember cx id g hcx hid m
    have hid' := Nat.lt_of_lt_of_le hid (Nat.le.intro hm.size.symm)
    rw [declareInterfaceMembers, interfaceDeclared]
    exact hm.append (fills_declareInterfaceMembers cx id _ hcx hid' rest)
      (grows_declareInterfaceMembers d cx id _ hcx rest)
      (fun k hk => additionsTo_of_lt (by rintro j ⟨⟩; exact hid) hk) nofun

theorem fills_declareInterfaceMember (cx : Context) (id : ModuleId) (g : Graph)
    (hcx : cx.module = some id) (hid : id < g.size) : ∀ m : InterfaceMember,
    Fills d m.declared none g (declareInterfaceMember d cx id g m)
  | .empty _ => by
    rw [declareInterfaceMember, InterfaceMember.declared]
    exact .nil g
  | .constants comments declarators => by
    rw [declareInterfaceMember, InterfaceMember.declared]
    exact (Fills.nil g).modify hid fun m =>
      ⟨(describe (constantOf d cx) comments declarators).map .constant, by rw [List.foldl_map]; rfl⟩
  | .method signature => by
    rw [declareInterfaceMember, InterfaceMember.declared]
    exact (Fills.nil g).modify hid fun m => ⟨[.method _], rfl⟩
  | .type comments decl => by
    rw [declareInterfaceMember, InterfaceMember.declared]
    exact fills_declareType false cx comments g (Context.module_lt hcx hid) decl

theorem fills_lowerMethodBody (s : BodyState) (hs : ∀ o ∈ s.cx.module, o < s.graph.size) :
    ∀ body : Syntax.MethodBody Statement,
    Fills d (methodDeclared body) none s.graph (lowerMethodBody d s body).2.graph
  | .block body => by
    rw [lowerMethodBody, methodDeclared]
    exact fills_lowerAll s hs body
  | .abstract | .native => by
    rw [lowerMethodBody, methodDeclared]
    exact .nil s.graph

theorem fills_lowerAll (s : BodyState) (hs : ∀ o ∈ s.cx.module, o < s.graph.size) :
    ∀ body : List Statement, Fills d (bodyDeclared body) none s.graph (lowerAll d s body).2.graph
  | [] => by
    rw [lowerAll, bodyDeclared]
    exact .nil s.graph
  | st :: rest => by
    rw [lowerAll, bodyDeclared]
    exact (fills_lower s hs st).body (grows_lower d s st) hs
      (fills_lowerAll _ ((grows_lower d s st).module_lt hs) rest) (grows_lowerAll d _ rest)

theorem fills_lower (s : BodyState) (hs : ∀ o ∈ s.cx.module, o < s.graph.size) :
    ∀ st : Statement, Fills d st.declared none s.graph (lower d s st).2.graph
  | .type comments decl => by
    rw [lower, Statement.declared]
    exact fills_declareType true s.cx comments s.graph hs decl
  | .block body | .loop _ body | .labeled _ body => by
    rw [lower, Statement.declared]
    exact fills_lowerAll s hs body
  | .ifThen condition thenBranch elseBranch => by
    rw [lower, Statement.declared]
    have hthen := grows_lowerAll d s thenBranch
    exact (fills_lowerAll s hs thenBranch).body hthen hs
      (fills_lowerElse _ (hthen.module_lt hs) elseBranch) (grows_lowerElse d _ elseBranch)
  | .switch value groups => by
    rw [lower, Statement.declared]
    exact fills_lowerGroups s hs groups
  | .comment _ | .variables _ | .expr _ | .leave _ | .return _ | .throw _ | .invoke _ => by
    rw [lower, Statement.declared]
    exact .nil s.graph

theorem fills_lowerElse (s : BodyState) (hs : ∀ o ∈ s.cx.module, o < s.graph.size) :
    ∀ body : Option (List Statement),
    Fills d (elseDeclared body) none s.graph (lowerElse d s body).2.graph
  | none => by
    rw [lowerElse, elseDeclared]
    exact .nil s.graph
  | some body => by
    rw [lowerElse, elseDeclared]
    exact fills_lowerAll s hs body

theorem fills_lowerGroups (s : BodyState) (hs : ∀ o ∈ s.cx.module, o < s.graph.size) :
    ∀ groups : List (SwitchGroup Statement),
    Fills d (groupsDeclared groups) none s.graph (lowerGroups d s groups).2.graph
  | [] => by
    rw [lowerGroups, groupsDeclared]
    exact .nil s.graph
  | ⟨labels, body⟩ :: rest => by
    rw [lowerGroups, groupsDeclared]
    have hbody := grows_lowerAll d s body
    exact (fills_lowerAll s hs body).body hbody hs
      (fills_lowerGroups _ (hbody.module_lt hs) rest) (grows_lowerGroups d _ rest)

end

/-- The types of a unit, which stand in no module. -/
theorem fills_declareTypes (types : List (List String × TypeDecl)) (g : Graph) :
    Fills d (types.flatMap fun t => t.2.declared false) none g (declareTypes d g types) ∧
      Grows (fun _ => []) g (declareTypes d g types) := by
  induction types generalizing g with
  | nil => exact ⟨.nil g, .refl g⟩
  | cons t rest ih =>
    obtain ⟨hrest, hgrows⟩ := ih (declareType d .topLevel t.1 g t.2).2
    exact ⟨(fills_declareType d false .topLevel t.1 g nofun t.2).append hrest hgrows (fun _ _ => rfl)
      nofun, (grows_declareType d .topLevel t.1 g t.2).trans hgrows⟩

/-- **Every declaration of a unit** makes the module at its place, and there are no other modules. -/
theorem makes_ofUnit (u : CompilationUnit) : (Graph.ofUnit d u).size = u.declared.length ∧
    ∀ i x, u.declared[i]? = some x → (Graph.ofUnit d u).Makes d (u.declared.drop i) i x := by
  obtain ⟨hfills, -⟩ := fills_declareTypes d u.types
    { package := (u.package.map Text.segments).getD []
      imports := u.imports
      comments := u.comments ++ u.trailing }
  refine ⟨hfills.size.trans (Nat.zero_add _), fun i x hx => ?_⟩
  have hmade : (Graph.ofUnit d u).Makes d (u.declared.drop i) (0 + i) x := hfills.makes i x hx
  rwa [Nat.zero_add] at hmade

end

end Rubify.Program
