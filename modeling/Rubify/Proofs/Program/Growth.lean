import Rubify.Proofs.Program.Invariant

/-!
# How a graph grows

Declaring only ever adds: modules behind those that are there, and members behind those that a
module has. `Grows news g g'` says what a declaration adds to the modules of `g`, exactly: the
module `k` gets `news k`, in order. What a declaration makes is behind the modules of `g`, so
whatever happens to it afterwards is not seen from `g` (`Grows.hide`).

A type adds nothing to the modules around it, with one exception: the constants of an enum are known
in the module around the enum too (`typeReferences`). This holds for the types in bodies as
well. So a member of a class adds the references of its types, and then itself
(`memberAdditions`).

Headlines:
* **`grows_declareType`**, **`grows_lowerAll`**: what a type and a body add to the graph around them;
* **`get?_declareType`**: the module of a class, with everything its members add to it.
-/

namespace Rubify.Program

open Grammar (Dialect)
open Syntax

/-! ## Growth -/

/-- The graph `g'` has the modules of `g`, in the same places and with `news` added to them, and
perhaps more. -/
structure Grows (news : ModuleId → List Addition) (g g' : Graph) : Prop where
  size : g.size ≤ g'.size
  get? : ∀ k < g.size, g'.get? k = (g.get? k).map fun m => (news k).foldl Module.add m

/-- Additions to one module, if there is one. -/
def additionsTo (id : Option ModuleId) (news : ModuleId → List Addition) (k : ModuleId) :
    List Addition :=
  if id = some k then news k else []

/-- What no addition changes. -/
theorem Module.foldl_add_eq {β : Type} {view : Module → β} (h : ∀ m a, view (m.add a) = view m)
    (news : List Addition) (m : Module) : view (news.foldl Module.add m) = view m := by
  induction news generalizing m with
  | nil => rfl
  | cons a rest ih => rw [List.foldl_cons, ih, h]

namespace Grows

variable {news news' : ModuleId → List Addition} {g g₁ g₂ : Graph} {id k : ModuleId}

theorem refl (g : Graph) : Grows (fun _ => []) g g :=
  ⟨Nat.le_refl _, fun k _ => by simp⟩

theorem trans (h : Grows news g g₁) (h' : Grows news' g₁ g₂) :
    Grows (fun k => news k ++ news' k) g g₂ := by
  refine ⟨Nat.le_trans h.size h'.size, fun k hk => ?_⟩
  rw [h'.get? k (Nat.lt_of_lt_of_le hk h.size), h.get? k hk, Option.map_map]
  congr 1
  funext m
  exact List.foldl_append.symm

/-- Only what is added to the modules of the graph matters. -/
theorem congr (h : Grows news g g₁) (heq : ∀ k < g.size, news k = news' k) : Grows news' g g₁ :=
  ⟨h.size, fun k hk => by rw [h.get? k hk, heq k hk]⟩

/-- What happens behind the modules of the graph is not seen. -/
theorem hide (h : Grows news g g₁) (h' : Grows news' g₁ g₂) (hnew : ∀ k < g.size, news' k = []) :
    Grows news g g₂ :=
  (h.trans h').congr fun k hk => by rw [hnew k hk, List.append_nil]

theorem alloc (g : Graph) (m : Module) : Grows (fun _ => []) g (g.alloc m).2 := by
  refine ⟨by simp, fun k hk => ?_⟩
  rw [Graph.get?_alloc, if_neg (Nat.ne_of_lt hk)]
  simp

/-- A change of a module behind those of the graph. -/
theorem hideModify (h : Grows news g g₁) (hid : g.size ≤ id) (f : Module → Module) :
    Grows news g (g₁.modify id f) := by
  refine ⟨by rw [Graph.size_modify]; exact h.size, fun k hk => ?_⟩
  have hne : k ≠ id := Nat.ne_of_lt (Nat.lt_of_lt_of_le hk hid)
  rw [Graph.get?_modify, h.get? k hk, Option.map_map]
  simp only [Function.comp_def, if_neg hne]

theorem modify (g : Graph) (id : ModuleId) (as : List Addition) {f : Module → Module}
    (hf : ∀ m, f m = as.foldl Module.add m) :
    Grows (additionsTo (some id) fun _ => as) g (g.modify id f) := by
  refine ⟨by simp, fun k _ => ?_⟩
  rw [Graph.get?_modify]
  congr 1
  funext m
  by_cases hk : k = id
  · subst hk
    simp [additionsTo, hf]
  · simp [additionsTo, hk, Ne.symm hk]

/-- Modules keep what no addition changes. -/
theorem view (h : Grows news g g₁) (hk : k < g.size) {β : Type} {view : Module → β}
    (hview : ∀ m a, view (m.add a) = view m) : (g₁.get? k).map view = (g.get? k).map view := by
  rw [h.get? k hk, Option.map_map]
  congr 1
  funext m
  exact Module.foldl_add_eq hview (news k) m

/-- Modules keep their constant paths. -/
theorem path (h : Grows news g g₁) (hk : k < g.size) : g₁.path k = g.path k := by
  refine Graph.path_congr fun j hj => ?_
  exact h.view (Nat.lt_of_le_of_lt hj hk) fun m a => by simp

end Grows

/-! ## What is added -/

section

variable (d : Dialect) (cx : Context)

/-- A constant of the enum at `path` as it is known in the module around the enum. -/
def enumReference (path : List String) (name : String) : Constant :=
  ⟨name, none, "::".intercalate (path ++ [Text.capitalize name]), []⟩

/-- The constants that a type adds to the module at `path` around it. -/
def typeReferences (path : List String) : TypeDecl → List Constant
  | .enumType name _ constants _ =>
    constants.map fun c => enumReference (path ++ [Text.capitalize name]) c.name
  | .classType .. | .interfaceType .. | .annotationType .. => []

/-- What fields of one declaration add to their module. -/
def fieldAdditions (comments : List String) (static final : Bool) (declarators : List Declarator) :
    List Addition :=
  if static && final then (describe (constantOf d cx) comments declarators).map .constant
  else if static then (describe (fieldOf d cx) comments declarators).map .staticField
  else (describe (fieldOf d cx) comments declarators).map .field

end

end Rubify.Program

namespace Rubify.Syntax

mutual

/-- The types declared in a statement, without those inside of them. -/
def Statement.types : Statement → List TypeDecl
  | .type _ decl => [decl]
  | .block body | .loop _ body | .labeled _ body => bodyTypes body
  | .ifThen _ thenBranch elseBranch => bodyTypes thenBranch ++ elseTypes elseBranch
  | .switch _ groups => groupTypes groups
  | .comment _ | .variables _ | .expr _ | .leave _ | .return _ | .throw _ | .invoke _ => []

/-- The types declared in a body. -/
def bodyTypes : List Statement → List TypeDecl
  | [] => []
  | st :: rest => st.types ++ bodyTypes rest

/-- The types declared in an else branch. -/
def elseTypes : Option (List Statement) → List TypeDecl
  | none => []
  | some body => bodyTypes body

/-- The types declared in the groups of a switch. -/
def groupTypes : List (SwitchGroup Statement) → List TypeDecl
  | [] => []
  | ⟨_, body⟩ :: rest => bodyTypes body ++ groupTypes rest

end

/-- The name of a type. -/
def TypeDecl.name : TypeDecl → String
  | .classType name .. | .enumType name .. | .interfaceType name .. | .annotationType name _ => name

/-- The types declared in the body of a method. -/
def methodTypes : MethodBody Statement → List TypeDecl
  | .block body => bodyTypes body
  | .abstract | .native => []

end Rubify.Syntax

namespace Rubify.Program

open Grammar (Dialect)
open Syntax

variable (d : Dialect)

/-- The constants that several types add to the module at `path` around them. -/
def references (path : List String) (types : List TypeDecl) : List Constant :=
  types.flatMap (typeReferences path)

/-- What a member of the class or enum `id` adds to it, declared when the graph is `g`. -/
def memberAdditions (cx : Context) (id : ModuleId) (g : Graph) : Member → List Addition
  | .empty _ => []
  | .initializer comments body =>
    let (stmts, s) := lowerAll d ⟨g, cx.enterMethod "static" true [], []⟩ body
    (references (g.path id) (bodyTypes body)).map .constant ++ [.block ⟨.of stmts, s.classes, comments⟩]
  | .fields comments static final declarators => fieldAdditions d cx comments static final declarators
  | .method signature static synchronized body =>
    let inner := cx.enterMethod signature.name static signature.generics
    let (lowered, s) := lowerMethodBody d ⟨g, inner, []⟩ body
    let method := methodOf inner signature static synchronized lowered
    (references (g.path id) (methodTypes body)).map .constant ++
      [.method { method with localClasses := s.classes }]
  | .constructor comments generics params invocation body =>
    let inner := cx.enterMethod "initialize" false generics
    let (stmts, s) := lowerAll d ⟨g, inner, []⟩ body
    (references (g.path id) (bodyTypes body)).map .constant ++ [.constructor
      { params := params.map (paramOf inner)
        generics
        invocation := invocationOf d inner invocation
        body := .of stmts
        localClasses := s.classes
        synthesized := false
        comments }]
  | .type _ decl => (typeReferences (g.path id) decl).map .constant

/-- What the members of the class or enum `id` add to it one after another. -/
def membersAdditions (cx : Context) (id : ModuleId) : Graph → List Member → List Addition
  | _, [] => []
  | g, m :: rest => memberAdditions d cx id g m ++
      membersAdditions cx id (declareMember d cx id g m) rest

/-- What a member of the interface `id` adds to it. -/
def interfaceMemberAdditions (cx : Context) (id : ModuleId) (g : Graph) :
    InterfaceMember → List Addition
  | .empty _ => []
  | .constants comments declarators =>
    (describe (constantOf d cx) comments declarators).map .constant
  | .method signature =>
    let inner := cx.enterMethod signature.name false signature.generics
    [.method (methodOf inner signature false false .abstract)]
  | .type _ decl => (typeReferences (g.path id) decl).map .constant

/-- What the members of the interface `id` add to it one after another. -/
def interfaceMembersAdditions (cx : Context) (id : ModuleId) :
    Graph → List InterfaceMember → List Addition
  | _, [] => []
  | g, m :: rest => interfaceMemberAdditions d cx id g m ++
      interfaceMembersAdditions cx id (declareInterfaceMember d cx id g m) rest

/-- What the constants of the enum `id` at `path` add: to the enum, and to the module `outer` around
it. -/
def constantsAdditions (outer : Option ModuleId) (cx : Context) (id : ModuleId) (path : List String) :
    Graph → List (EnumConstant Member) → ModuleId → List Addition
  | _, [], _ => []
  | g, ⟨comments, name, arguments, body⟩ :: rest, k =>
    let (receiver, g) := declareConstantBody d cx id name g body
    let c := enumConstant d (g.rubyName receiver) name (arguments.map (exprText d cx)) comments
    additionsTo outer (fun _ => [.constant (enumReference path name)]) k ++
      additionsTo (some id) (fun _ => [.constant c]) k ++
      constantsAdditions outer cx id path (g.addEnumConstant outer id c) rest k

/-! ## Declaring adds just that -/

section

variable {id : Option ModuleId} {k : ModuleId} {news news' : ModuleId → List Addition}

theorem additionsTo_append (id : Option ModuleId) (news news' : ModuleId → List Addition)
    (k : ModuleId) : additionsTo id (fun k => news k ++ news' k) k =
      additionsTo id news k ++ additionsTo id news' k := by
  unfold additionsTo
  split <;> simp

theorem additionsTo_new {g : Graph} (hk : k < g.size) :
    additionsTo (some g.size) news k = [] :=
  if_neg fun h => Nat.ne_of_gt hk (Option.some.inj h)

theorem additionsTo_congr (h : id = some k → news k = news' k) :
    additionsTo id news k = additionsTo id news' k := by
  unfold additionsTo
  split
  · exact h ‹_›
  · rfl

end

theorem addFields_eq (cx : Context) (comments : List String) (static final : Bool)
    (declarators : List Declarator) (m : Module) :
    m.addFields d cx comments static final declarators =
      (fieldAdditions d cx comments static final declarators).foldl Module.add m := by
  unfold Module.addFields fieldAdditions
  cases static <;> cases final <;> simp only [Bool.and_true, Bool.and_false, Bool.false_eq_true,
    if_true, if_false, List.foldl_map] <;> rfl

variable {d}

/-- A body with certain types in it: it stays in its module, to which it adds the references of its
types. -/
structure BodyGrows (types : List TypeDecl) (s s' : BodyState) : Prop where
  module : s'.cx.module = s.cx.module
  grows : Grows (additionsTo s.cx.module fun k =>
    (references (s.graph.path k) types).map .constant) s.graph s'.graph

theorem BodyGrows.refl (s : BodyState) : BodyGrows [] s s :=
  ⟨rfl, (Grows.refl _).congr fun k _ => by simp [additionsTo, references]⟩

theorem BodyGrows.trans {types types' : List TypeDecl} {s s₁ s₂ : BodyState}
    (h : BodyGrows types s s₁) (h' : BodyGrows types' s₁ s₂) : BodyGrows (types ++ types') s s₂ := by
  refine ⟨h'.module.trans h.module, (h.grows.trans h'.grows).congr fun k hk => ?_⟩
  -- The second body finds the module around it under the same path.
  rw [h.module, ← additionsTo_append]
  refine additionsTo_congr fun _ => ?_
  simp only [references, List.flatMap_append, List.map_append, h.grows.path hk]

/-- A body in a type adds nothing else, and then its member is added. -/
theorem BodyGrows.close {types : List TypeDecl} {s s' : BodyState} {id : ModuleId} {a : Addition}
    (h : BodyGrows types s s') (hs : s.cx.module = some id) {f : Module → Module}
    (hf : ∀ m, f m = m.add a) : Grows
      (additionsTo (some id) fun _ => (references (s.graph.path id) types).map .constant ++ [a]) s.graph
      (s'.graph.modify id f) := by
  refine (h.grows.trans (.modify _ id [a] hf)).congr fun k _ => ?_
  rw [hs, ← additionsTo_append]
  refine additionsTo_congr fun hk => ?_
  cases hk
  rfl

theorem Grows.addEnumConstant (g : Graph) (outer : Option ModuleId) (id : ModuleId) (c : Constant) :
    Grows (fun k => additionsTo outer (fun _ => [.constant (enumReference (g.path id) c.name)]) k ++
      additionsTo (some id) (fun _ => [.constant c]) k) g (g.addEnumConstant outer id c) := by
  unfold Graph.addEnumConstant
  refine Grows.trans ?_ (.modify _ id [.constant c] fun _ => rfl)
  cases outer with
  | none => exact (Grows.refl g).congr fun _ _ => rfl
  | some outer => exact .modify g outer [.constant (enumReference (g.path id) c.name)] fun _ => rfl

/-- Seen from the modules around it, an enum adds references to its constants. -/
theorem constantsAdditions_eq {outer : Option ModuleId} {cx : Context} {id k : ModuleId}
    (hk : k ≠ id) (path : List String) (constants : List (EnumConstant Member)) (g : Graph) :
    constantsAdditions d outer cx id path g constants k = additionsTo outer (fun _ =>
      constants.map fun c => .constant (enumReference path c.name)) k := by
  have hid : ∀ a : Addition, additionsTo (some id) (fun _ => [a]) k = [] := fun a =>
    if_neg fun h => hk (Option.some.inj h).symm
  induction constants generalizing g with
  | nil => simp [constantsAdditions, additionsTo]
  | cons c rest ih =>
    obtain ⟨comments, name, arguments, body⟩ := c
    rw [constantsAdditions]
    simp only [ih, hid, List.append_nil, ← additionsTo_append]
    rfl

/-- A new module stands below the module that owns it. -/
theorem path_alloc {g : Graph} {m : Module} {k : ModuleId} (hm : m.owner.module = some k)
    (hk : k < g.size) : (g.alloc m).2.path g.size = g.path k ++ [m.rubyName] := by
  rw [Graph.path, Graph.get?_alloc, if_pos rfl]
  simp only [hm, if_pos hk, (Grows.alloc g m).path hk]

variable (d)

mutual

theorem grows_declareType (cx : Context) (comments : List String) (g : Graph) : ∀ decl : TypeDecl,
    Grows (additionsTo cx.module fun k => (typeReferences (g.path k) decl).map .constant) g
      (declareType d cx comments g decl).2
  | .classType name static generics superclass interfaces ⟨opening, members, closing⟩ => by
    rw [declareType]
    refine Grows.hideModify ?_ (Nat.le_refl _) _
    refine ((Grows.alloc g _).hide (grows_declareMembers (cx.enterModule g.size generics) g.size _
      rfl members) fun k hk => additionsTo_new hk).congr fun k _ => ?_
    simp [additionsTo, typeReferences]
  | .enumType name interfaces constants ⟨opening, members, closing⟩ => by
    rw [declareType]
    refine Grows.hideModify (Grows.hideModify ?_ (Nat.le_refl _) _) (Nat.le_refl _) _
    refine (((Grows.alloc g _).trans (grows_declareConstants cx.module (cx.enterModule g.size [])
      g.size _ ?_ constants)).hide (grows_declareMembers (cx.enterModule g.size []) g.size _ rfl
        members) fun k hk => additionsTo_new hk).congr fun k hk => ?_
    · rw [Graph.size_alloc]
      exact Nat.lt_succ_self _
    · rw [List.nil_append, constantsAdditions_eq (Nat.ne_of_lt hk)]
      refine additionsTo_congr fun hmodule => ?_
      rw [path_alloc hmodule hk, typeReferences, List.map_map]
      rfl
  | .interfaceType name generics parents ⟨opening, members, closing⟩ => by
    rw [declareType]
    refine ((Grows.alloc g _).hide (grows_declareInterfaceMembers (cx.enterModule g.size generics)
      g.size _ rfl members) fun k hk => additionsTo_new hk).congr fun k _ => ?_
    simp [additionsTo, typeReferences]
  | .annotationType name bodyComments => by
    rw [declareType]
    exact (Grows.alloc g _).congr fun k _ => by simp [additionsTo, typeReferences]

theorem grows_declareMembers (cx : Context) (id : ModuleId) (g : Graph) (hcx : cx.module = some id) :
    ∀ members : List Member, Grows (additionsTo (some id) fun _ => membersAdditions d cx id g members)
      g (declareMembers d cx id g members)
  | [] => by
    rw [declareMembers]
    exact (Grows.refl g).congr fun k _ => by simp [additionsTo, membersAdditions]
  | m :: rest => by
    rw [declareMembers]
    refine ((grows_declareMember cx id g hcx m).trans
      (grows_declareMembers cx id _ hcx rest)).congr fun k _ => ?_
    rw [← additionsTo_append, membersAdditions]

theorem grows_declareMember (cx : Context) (id : ModuleId) (g : Graph) (hcx : cx.module = some id) :
    ∀ m : Member, Grows (additionsTo (some id) fun _ => memberAdditions d cx id g m)
      g (declareMember d cx id g m)
  | .empty _ => by
    rw [declareMember]
    exact (Grows.refl g).congr fun k _ => by simp [additionsTo, memberAdditions]
  | .initializer comments body => by
    rw [declareMember, memberAdditions]
    exact (grows_lowerAll ⟨g, cx.enterMethod "static" true [], []⟩ body).close hcx fun _ => rfl
  | .fields comments static final declarators => by
    rw [declareMember, memberAdditions]
    exact .modify g id _ (addFields_eq d cx comments static final declarators)
  | .method signature static synchronized body => by
    rw [declareMember, memberAdditions]
    exact (grows_lowerMethodBody ⟨g, cx.enterMethod signature.name static signature.generics, []⟩
      body).close hcx fun _ => rfl
  | .constructor comments generics params invocation body => by
    rw [declareMember, memberAdditions]
    exact (grows_lowerAll ⟨g, cx.enterMethod "initialize" false generics, []⟩ body).close hcx
      fun _ => rfl
  | .type comments decl => by
    rw [declareMember, memberAdditions]
    refine (grows_declareType cx comments g decl).congr fun k _ => ?_
    rw [hcx]
    exact additionsTo_congr fun hk => by cases hk; rfl

theorem grows_declareConstants (outer : Option ModuleId) (cx : Context) (id : ModuleId) (g : Graph)
    (hid : id < g.size) : ∀ constants : List (EnumConstant Member),
    Grows (constantsAdditions d outer cx id (g.path id) g constants) g
      (declareConstants d outer cx id g constants)
  | [] => by
    rw [declareConstants]
    exact (Grows.refl g).congr fun k _ => by rw [constantsAdditions]
  | ⟨comments, name, arguments, body⟩ :: rest => by
    rw [declareConstants]
    have hbody := grows_declareConstantBody cx id name g body
    have hid' := Nat.lt_of_lt_of_le hid hbody.size
    have hadd := Grows.addEnumConstant (declareConstantBody d cx id name g body).2 outer id
      (enumConstant d ((declareConstantBody d cx id name g body).2.rubyName
        (declareConstantBody d cx id name g body).1) name (arguments.map (exprText d cx)) comments)
    have hrest := grows_declareConstants outer cx id _ (Nat.lt_of_lt_of_le hid' hadd.size) rest
    -- The enum keeps its path, whatever the body of the constant declares.
    rw [hadd.path hid', hbody.path hid] at hrest
    refine ((hbody.trans hadd).trans hrest).congr fun k _ => ?_
    rw [constantsAdditions, hbody.path hid]
    rfl

theorem grows_declareConstantBody (cx : Context) (id : ModuleId) (name : String) (g : Graph) :
    ∀ body : Option (TypeBody Member), Grows (fun _ => []) g
      (declareConstantBody d cx id name g body).2
  | none => by
    rw [declareConstantBody]
    exact .refl g
  | some ⟨opening, members, closing⟩ => by
    rw [declareConstantBody]
    exact (Grows.alloc g _).hide (grows_declareMembers (cx.enterModule g.size []) g.size _ rfl
      members) fun k hk => additionsTo_new hk

theorem grows_declareInterfaceMembers (cx : Context) (id : ModuleId) (g : Graph)
    (hcx : cx.module = some id) : ∀ members : List InterfaceMember,
    Grows (additionsTo (some id) fun _ => interfaceMembersAdditions d cx id g members)
      g (declareInterfaceMembers d cx id g members)
  | [] => by
    rw [declareInterfaceMembers]
    exact (Grows.refl g).congr fun k _ => by simp [additionsTo, interfaceMembersAdditions]
  | m :: rest => by
    rw [declareInterfaceMembers]
    refine ((grows_declareInterfaceMember cx id g hcx m).trans
      (grows_declareInterfaceMembers cx id _ hcx rest)).congr fun k _ => ?_
    rw [← additionsTo_append, interfaceMembersAdditions]

theorem grows_declareInterfaceMember (cx : Context) (id : ModuleId) (g : Graph)
    (hcx : cx.module = some id) : ∀ m : InterfaceMember,
    Grows (additionsTo (some id) fun _ => interfaceMemberAdditions d cx id g m)
      g (declareInterfaceMember d cx id g m)
  | .empty _ => by
    rw [declareInterfaceMember]
    exact (Grows.refl g).congr fun k _ => by simp [additionsTo, interfaceMemberAdditions]
  | .constants comments declarators => by
    rw [declareInterfaceMember, interfaceMemberAdditions]
    exact .modify g id _ fun m => by rw [List.foldl_map]; rfl
  | .method signature => by
    rw [declareInterfaceMember, interfaceMemberAdditions]
    exact .modify g id _ fun _ => rfl
  | .type comments decl => by
    rw [declareInterfaceMember, interfaceMemberAdditions]
    refine (grows_declareType cx comments g decl).congr fun k _ => ?_
    rw [hcx]
    exact additionsTo_congr fun hk => by cases hk; rfl

theorem grows_lowerMethodBody (s : BodyState) : ∀ body : Syntax.MethodBody Statement,
    BodyGrows (methodTypes body) s (lowerMethodBody d s body).2
  | .block body => by
    rw [lowerMethodBody]
    exact grows_lowerAll s body
  | .abstract | .native => by
    rw [lowerMethodBody]
    exact .refl s

theorem grows_lowerAll (s : BodyState) : ∀ body : List Statement,
    BodyGrows (bodyTypes body) s (lowerAll d s body).2
  | [] => by
    rw [lowerAll, bodyTypes]
    exact .refl s
  | st :: rest => by
    rw [lowerAll, bodyTypes]
    exact (grows_lower s st).trans (grows_lowerAll _ rest)

theorem grows_lower (s : BodyState) : ∀ st : Statement,
    BodyGrows st.types s (lower d s st).2
  | .type comments decl => by
    rw [lower, Statement.types]
    refine ⟨rfl, (grows_declareType s.cx comments s.graph decl).congr fun k _ => ?_⟩
    simp [references]
  | .block body | .loop _ body | .labeled _ body => by
    rw [lower, Statement.types]
    exact grows_lowerAll s body
  | .ifThen condition thenBranch elseBranch => by
    rw [lower, Statement.types]
    exact (grows_lowerAll s thenBranch).trans (grows_lowerElse _ elseBranch)
  | .switch value groups => by
    rw [lower, Statement.types]
    exact grows_lowerGroups s groups
  | .comment _ | .variables _ | .expr _ | .leave _ | .return _ | .throw _ | .invoke _ => by
    rw [lower, Statement.types]
    exact .refl s

theorem grows_lowerElse (s : BodyState) : ∀ body : Option (List Statement),
    BodyGrows (elseTypes body) s (lowerElse d s body).2
  | none => by
    rw [lowerElse, elseTypes]
    exact .refl s
  | some body => by
    rw [lowerElse, elseTypes]
    exact grows_lowerAll s body

theorem grows_lowerGroups (s : BodyState) : ∀ groups : List (SwitchGroup Statement),
    BodyGrows (groupTypes groups) s (lowerGroups d s groups).2
  | [] => by
    rw [lowerGroups, groupTypes]
    exact .refl s
  | ⟨labels, body⟩ :: rest => by
    rw [lowerGroups, groupTypes]
    exact (grows_lowerAll s body).trans (grows_lowerGroups _ rest)

end

/-! ## The module of a class -/

/-- The place of a new module. -/
theorem declareType_fst (cx : Context) (comments : List String) (g : Graph) (decl : TypeDecl) :
    (declareType d cx comments g decl).1 = g.size := by
  cases decl <;> rfl

theorem view_modify {β : Type} {view : Module → β} (g : Graph) (id k : ModuleId) {f : Module → Module}
    (hf : ∀ m, view (f m) = view m) : ((g.modify id f).get? k).map view = (g.get? k).map view := by
  rw [Graph.get?_modify, Option.map_map]
  congr 1
  funext m
  by_cases hk : k = id
  · simp [hk, hf]
  · simp [hk]

theorem name_ensureConstructor (m : Module) : m.ensureConstructor.name = m.name := by
  rcases Module.ensureConstructor_eq m with h | h
  · rw [h]
  · rw [h, Module.name_add]

/-- A type is declared under its own name. -/
theorem name_declareType (cx : Context) (comments : List String) (g : Graph) (decl : TypeDecl) :
    ((declareType d cx comments g decl).2.get? g.size).map Module.name = some decl.name := by
  have hnew (m : Module) {news : ModuleId → List Addition} {g' : Graph}
      (h : Grows news (g.alloc m).2 g') : (g'.get? g.size).map Module.name = some m.name := by
    rw [h.view (by rw [Graph.size_alloc]; exact Nat.lt_succ_self _) Module.name_add,
      Graph.get?_alloc, if_pos rfl]
    rfl
  cases decl with
  | classType name static generics superclass interfaces body =>
    obtain ⟨opening, members, closing⟩ := body
    rw [declareType, view_modify _ _ _ name_ensureConstructor]
    exact hnew _ (grows_declareMembers d (cx.enterModule g.size generics) g.size _ rfl members)
  | enumType name interfaces constants body =>
    obtain ⟨opening, members, closing⟩ := body
    rw [declareType, view_modify _ _ _ name_ensureConstructor, view_modify]
    · exact hnew _ ((grows_declareConstants d cx.module (cx.enterModule g.size []) g.size _
        (by rw [Graph.size_alloc]; exact Nat.lt_succ_self _) constants).trans
        (grows_declareMembers d (cx.enterModule g.size []) g.size _ rfl members))
    · intro m
      rfl
  | interfaceType name generics parents body =>
    obtain ⟨opening, members, closing⟩ := body
    rw [declareType]
    exact hnew _ (grows_declareInterfaceMembers d (cx.enterModule g.size generics) g.size _ rfl
      members)
  | annotationType name bodyComments =>
    rw [declareType]
    exact hnew _ (.refl _)

/-- The module of a class, before its members are declared. -/
def classModule (cx inner : Context) (comments : List String) (name : String) (static : Bool)
    (generics : List String) (superclass : Option TypeRef) (interfaces : List TypeRef)
    (body : TypeBody Member) : Module :=
  { kind := cx.kindOf .classType static
    name
    owner := cx.owner
    generics
    superclass := superclass.map inner.resolve
    interfaces := interfaces.map inner.resolve
    comments
    bodyComments := looseComments Member.looseTexts body }

/-- **The module of a class** is what its members make of it, with the constructor that a class with
fields needs. -/
theorem get?_declareType (cx : Context) (comments : List String) (g : Graph) (name : String)
    (static : Bool) (generics : List String) (superclass : Option TypeRef)
    (interfaces : List TypeRef) (body : TypeBody Member) :
    let inner := cx.enterModule g.size generics
    let m := classModule cx inner comments name static generics superclass interfaces body
    (declareType d cx comments g
      (.classType name static generics superclass interfaces body)).2.get? g.size =
      some ((membersAdditions d inner g.size (g.alloc m).2 body.members).foldl Module.add
        m).ensureConstructor := by
  intro inner m
  obtain ⟨opening, members, closing⟩ := body
  have hgrows := grows_declareMembers d inner g.size (g.alloc m).2 rfl members
  have hsize : g.size < (g.alloc m).2.size := by
    rw [Graph.size_alloc]
    exact Nat.lt_succ_self _
  have hget := hgrows.get? g.size hsize
  rw [Graph.get?_alloc, if_pos rfl] at hget
  have hmade : (declareMembers d inner g.size (g.alloc m).2 members).get? g.size =
      some ((membersAdditions d inner g.size (g.alloc m).2 members).foldl Module.add m) := by
    rw [hget]
    simp [additionsTo]
  rw [declareType]
  show ((declareMembers d inner g.size (g.alloc m).2 members).modify g.size
    Module.ensureConstructor).get? g.size = _
  rw [Graph.get?_modify, hmade]
  simp

end Rubify.Program
