import Rubify.Proofs.Program.Growth
import Mathlib.Data.List.Forall2

/-!
# Scopes in bodies

What a body knows at each place where an expression is written. Read as Java, a type declared in a body
is in scope from its declaration to the end of the block around it (`Known.inScope`); a group of a
switch is a block of its own. Here every use of expressions in a body is listed in the order of the
text, with the types declared in front of it and which of them are in scope (`bodyUses`).

Lowering a body writes these uses, in this order, and each of them as in a context that knows just the
types in front of it, each by the path of the module around the body and the name that it is defined
under. The graph does not come in: where the modules of the types end up is fixed by their names.

Headline:
* **`spells_lowerAll`**: the texts of a lowered body are those of its uses, and its classes are the
  modules of its types.
-/

namespace Rubify.Flow

mutual

/-- The texts of expressions in a statement, in order. -/
def Stmt.exprTexts : Stmt → List String
  | .comment _ | .leave _ => []
  | .other text | .raise text => [text]
  | .return value => value.toList
  | .block body | .labeled _ body => exprTexts body
  | .loop condition body => condition :: exprTexts body
  | .ifThen condition thenBranch elseBranch =>
    condition :: (exprTexts thenBranch ++ elseExprTexts elseBranch)
  | .case value branches => value :: branchExprTexts branches

/-- The texts of expressions in a body. -/
def exprTexts : List Stmt → List String
  | [] => []
  | s :: rest => s.exprTexts ++ exprTexts rest

/-- The texts of expressions in an `else` branch. -/
def elseExprTexts : Option (List Stmt) → List String
  | none => []
  | some body => exprTexts body

/-- The texts of expressions in the groups of a switch, with their labels. -/
def branchExprTexts : List (Branch Stmt) → List String
  | [] => []
  | ⟨labels, _, body⟩ :: rest => values labels ++ exprTexts body ++ branchExprTexts rest

end

theorem exprTexts_append (xs ys : List Stmt) :
    exprTexts (xs ++ ys) = exprTexts xs ++ exprTexts ys := by
  induction xs with
  | nil => rfl
  | cons s xs ih => rw [List.cons_append, exprTexts, exprTexts, ih, List.append_assoc]

end Rubify.Flow

namespace Rubify.Syntax

/-! ## Uses -/

/-- A type that a body has declared in front of a place, and whether the place is in its scope. -/
structure Known where
  decl : TypeDecl
  inScope : Bool

/-- Something that is written with expressions in it. -/
inductive Item
  | expr (e : Expr)
  /-- The assignment that a local variable begins with. -/
  | variable (v : Declarator)
  /-- A bare argument list: a call of the method around it. -/
  | call (arguments : List Expr)
  /-- The first value of a field. -/
  | value (v : Declarator)
  /-- The arguments for another constructor. -/
  | invocation (arguments : List Expr)
  /-- The instance `name` of an enum. -/
  | constant (receiver name : String) (arguments : List Expr)

/-- A place where something is written, with the types declared in front of it. -/
structure Use where
  known : List Known
  item : Item

/-- The types that what follows a statement knows. Those inside of it have gone out of scope. -/
def Statement.knows : Statement → List Known
  | .type _ decl => [⟨decl, true⟩]
  | st => st.types.map (⟨·, false⟩)

mutual

/-- The uses in a statement. Types are left out: what stands in them is not in this body. -/
def Statement.uses (known : List Known) : Statement → List Use
  | .comment _ | .type _ _ | .leave _ => []
  | .variables declarators => declarators.map fun v => ⟨known, .variable v⟩
  | .expr e | .throw e => [⟨known, .expr e⟩]
  | .return value => value.toList.map fun e => ⟨known, .expr e⟩
  | .invoke arguments => [⟨known, .call arguments⟩]
  | .block body | .labeled _ body => bodyUses known body
  | .loop condition body => ⟨known, .expr condition⟩ :: bodyUses known body
  | .ifThen condition thenBranch elseBranch =>
    ⟨known, .expr condition⟩ :: (bodyUses known thenBranch ++
      elseUses (known ++ (bodyTypes thenBranch).map (⟨·, false⟩)) elseBranch)
  | .switch value groups => ⟨known, .expr value⟩ :: groupUses known groups

/-- The uses in a body. -/
def bodyUses (known : List Known) : List Statement → List Use
  | [] => []
  | st :: rest => st.uses known ++ bodyUses (known ++ st.knows) rest

/-- The uses in an else branch. -/
def elseUses (known : List Known) : Option (List Statement) → List Use
  | none => []
  | some body => bodyUses known body

/-- The uses in the groups of a switch. -/
def groupUses (known : List Known) : List (SwitchGroup Statement) → List Use
  | [] => []
  | ⟨labels, body⟩ :: rest =>
    (labels.filterMap id).map (fun e => ⟨known, .expr e⟩) ++ bodyUses known body ++
      groupUses (known ++ (bodyTypes body).map (⟨·, false⟩)) rest

end

theorem map_decl_knows (st : Statement) : st.knows.map Known.decl = st.types := by
  unfold Statement.knows
  split
  · rfl
  · simp [Function.comp_def]

end Rubify.Syntax

namespace Rubify.Program

open Grammar (Dialect)
open Syntax

/-- The name that a type declared in a method is defined under: a class carries the name of the
method. -/
def definedName (method : Option MethodOwner) : TypeDecl → String
  | .classType name .. => Text.capitalize name ++ (method.map fun m => "_" ++ m.name).getD ""
  | .enumType name .. | .interfaceType name .. | .annotationType name _ => Text.capitalize name

/-- The context with just these types known, in a module at `path`. -/
def Context.knowing (cx : Context) (path : List String) (known : List TypeDecl) : Context :=
  { cx with localTypes := known.map fun decl => (decl.name, path ++ [definedName cx.method decl]) }

/-- What is written for an item. -/
def itemText (d : Dialect) (cx : Context) : Item → String
  | .expr e => exprText d cx e
  | .variable v => v.name ++ " = " ++ (fieldOf d cx [] v).value
  | .call arguments =>
    let texts := arguments.map (exprText d cx)
    (cx.method.map MethodOwner.name).getD "" ++ argumentsText d texts true ++
      argumentsText d texts false
  | .value v => (fieldOf d cx [] v).value
  | .invocation arguments => argumentsText d (arguments.map (exprText d cx)) true
  | .constant receiver name arguments =>
    (enumConstant d receiver name (arguments.map (exprText d cx)) []).value

/-- What is written for a use in a module at `path`. -/
def useText (d : Dialect) (cx : Context) (path : List String) (u : Use) : String :=
  itemText d (cx.knowing path (u.known.map Known.decl)) u.item

/-! ## The module of a type -/

/-- The module of a type before anything is added to it, at the place `id`. -/
def headModule (cx : Context) (comments : List String) (id : ModuleId) : TypeDecl → Module
  | .classType name static generics superclass interfaces body =>
    classModule cx (cx.enterModule id generics) comments name static generics superclass interfaces body
  | .enumType name interfaces _ body =>
    { kind := .enum
      name
      owner := cx.owner
      interfaces := interfaces.map (cx.enterModule id []).resolve
      comments
      bodyComments := looseComments Member.looseTexts body }
  | .interfaceType name generics parents body =>
    { kind := cx.kindOf .interfaceType false
      name
      owner := cx.owner
      generics
      interfaces := parents.map (cx.enterModule id generics).resolve
      comments
      bodyComments := looseComments InterfaceMember.looseTexts body }
  | .annotationType name bodyComments =>
    { kind := cx.kindOf .interfaceType false, name, owner := cx.owner, comments, bodyComments }

theorem name_headModule (cx : Context) (comments : List String) (id : ModuleId) (decl : TypeDecl) :
    (headModule cx comments id decl).name = decl.name := by
  cases decl <;> rfl

theorem owner_headModule (cx : Context) (comments : List String) (id : ModuleId) (decl : TypeDecl) :
    (headModule cx comments id decl).owner = cx.owner := by
  cases decl <;> rfl

theorem rubyName_headModule (cx : Context) (comments : List String) (id : ModuleId)
    (decl : TypeDecl) : (headModule cx comments id decl).rubyName = definedName cx.method decl := by
  obtain ⟨module, method, typeParams, localTypes⟩ := cx
  cases decl with
  | classType name static generics superclass interfaces body =>
    cases method <;> cases module <;> cases static <;>
      simp [headModule, classModule, Module.rubyName, Context.kindOf, Context.owner, definedName,
        String.append_assoc]
  | enumType name interfaces constants body => rfl
  | interfaceType name generics parents body | annotationType name comments =>
    cases module <;> cases method <;> rfl

theorem Graph.lt_size_alloc (g : Graph) (m : Module) : g.size < (g.alloc m).2.size := by
  rw [Graph.size_alloc]
  exact Nat.lt_succ_self _

/-- A change of one module that adds to it, whatever it adds. -/
theorem Grows.exists_modify {news : ModuleId → List Addition} {g g' : Graph} (h : Grows news g g')
    (id : ModuleId) {f : Module → Module}
    (hf : ∀ m, ∃ as : List Addition, f m = as.foldl Module.add m) :
    ∃ news', Grows news' g (g'.modify id f) := by
  choose as has using hf
  have hmodify : Grows (fun k => if k = id then ((g'.get? id).map as).getD [] else []) g'
      (g'.modify id f) := by
    refine ⟨by simp, fun k hk => ?_⟩
    have hm : g'.get? k = some g'.modules[k] := Array.getElem?_eq_getElem hk
    rw [Graph.get?_modify, hm]
    by_cases hid : k = id
    · subst hid
      simp [hm, has]
    · simp [hid]
  exact ⟨_, h.trans hmodify⟩

theorem exists_foldl_ensureConstructor (m : Module) :
    ∃ as : List Addition, m.ensureConstructor = as.foldl Module.add m := by
  rcases m.ensureConstructor_eq with h | h
  · exact ⟨[], h⟩
  · exact ⟨[.constructor (.ofInvocation [] .none)], h⟩

/-- **Declaring a type** makes its module, and all that follows adds to the graph. -/
theorem exists_grows_declareType (d : Dialect) (cx : Context) (comments : List String) (g : Graph)
    (decl : TypeDecl) : ∃ news, Grows news (g.alloc (headModule cx comments g.size decl)).2
      (declareType d cx comments g decl).2 := by
  cases decl with
  | classType name static generics superclass interfaces body =>
    obtain ⟨opening, members, closing⟩ := body
    exact (grows_declareMembers d (cx.enterModule g.size generics) g.size _ rfl members).exists_modify
      g.size exists_foldl_ensureConstructor
  | enumType name interfaces constants body =>
    obtain ⟨opening, members, closing⟩ := body
    have hmembers := (grows_declareConstants d cx.module (cx.enterModule g.size []) g.size _
      (g.lt_size_alloc (headModule cx comments g.size (.enumType name interfaces constants
        ⟨opening, members, closing⟩))) constants).trans
      (grows_declareMembers d (cx.enterModule g.size []) g.size _ rfl members)
    obtain ⟨news, hmethods⟩ := hmembers.exists_modify g.size
      (f := fun m => (enumMethods (constants.map fun c => Text.capitalize c.name)).foldl
        Module.addMethod m)
      fun m => ⟨(enumMethods _).map .method, by rw [List.foldl_map]; rfl⟩
    exact hmethods.exists_modify g.size exists_foldl_ensureConstructor
  | interfaceType name generics parents body =>
    obtain ⟨opening, members, closing⟩ := body
    exact ⟨_, grows_declareInterfaceMembers d (cx.enterModule g.size generics) g.size _ rfl members⟩
  | annotationType name bodyComments => exact ⟨_, .refl _⟩

/-! ## Where the types of a body are -/

/-- The module at `c` is that of a type declared in a method of the module `k`. -/
structure Graph.TypeAt (g : Graph) (k : ModuleId) (method : Option MethodOwner) (decl : TypeDecl)
    (c : ModuleId) : Prop where
  module : ∃ m, g.get? c = some m ∧ m.name = decl.name ∧ m.owner = ⟨some k, method⟩
  path : g.path c = g.path k ++ [definedName method decl]

section

variable {d : Dialect} {g g' : Graph} {k c : ModuleId} {method : Option MethodOwner} {decl : TypeDecl}
  {news : ModuleId → List Addition}

/-- What no addition changes can be read off later. -/
theorem Grows.get?_view {m : Module} {β : Type} (h : Grows news g g') (view : Module → β)
    (hm : g.get? c = some m) (hview : ∀ m a, view (m.add a) = view m) :
    ∃ m', g'.get? c = some m' ∧ view m' = view m := by
  have hc := Graph.lt_of_get? hm
  refine ⟨_, by rw [h.get? c hc, hm]; rfl, Module.foldl_add_eq hview _ m⟩

/-- Modules stay where they are. -/
theorem Graph.TypeAt.grows (ht : g.TypeAt k method decl c) (hk : k < g.size) (h : Grows news g g') :
    g'.TypeAt k method decl c := by
  obtain ⟨⟨m, hm, hname, howner⟩, hpath⟩ := ht
  obtain ⟨m', hm', hview⟩ := h.get?_view (fun m => (m.name, m.owner)) hm fun m a => by simp
  obtain ⟨hname', howner'⟩ := Prod.mk.inj hview
  refine ⟨⟨m', hm', hname'.trans hname, howner'.trans howner⟩, ?_⟩
  rw [h.path (Graph.lt_of_get? hm), h.path hk, hpath]

/-- A type is declared as a module of its own in the module around it. -/
theorem typeAt_declareType {cx : Context} (hcx : cx.module = some k) (hk : k < g.size)
    (comments : List String) (decl : TypeDecl) :
    (declareType d cx comments g decl).2.TypeAt k cx.method decl g.size := by
  obtain ⟨news, hgrows⟩ := exists_grows_declareType d cx comments g decl
  have howner : (headModule cx comments g.size decl).owner = ⟨some k, cx.method⟩ := by
    rw [owner_headModule, Context.owner, hcx]
  have hsize := Nat.lt_trans hk (g.lt_size_alloc (headModule cx comments g.size decl))
  refine Graph.TypeAt.grows ⟨⟨_, ?_, name_headModule cx comments g.size decl, howner⟩, ?_⟩ hsize hgrows
  · rw [Graph.get?_alloc, if_pos rfl]
  · rw [path_alloc (by rw [howner]) hk, (Grows.alloc g _).path hk, rubyName_headModule]

end

/-! ## Lowering a body -/

/-- A body of the module `k` that has these types declared in front of what follows. -/
structure StandsIn (k : ModuleId) (path : List String) (cx : Context) (known : List TypeDecl)
    (s : BodyState) : Prop where
  cx : s.cx = cx.knowing path known
  lt : k < s.graph.size
  path : s.graph.path k = path

/-- What some statements of a body become: texts of their uses, and modules of their types, which are
known from then on. -/
structure Spells (d : Dialect) (k : ModuleId) (path : List String) (cx : Context)
    (known types : List TypeDecl) (uses : List Use) (texts : List String) (s s' : BodyState) :
    Prop where
  texts : texts = uses.map (useText d cx path)
  before : ∀ u ∈ uses, u.known.map Known.decl <+: known ++ types
  stands : StandsIn k path cx (known ++ types) s'
  classes : ∃ news, s'.classes = s.classes ++ news ∧
    List.Forall₂ (s'.graph.TypeAt k cx.method) types news
  grows : ∃ news, Grows news s.graph s'.graph

section

variable {d : Dialect} {k : ModuleId} {path : List String} {cx : Context}
  {known types types' : List TypeDecl} {uses uses' : List Use} {texts texts' : List String}
  {s s₁ s₂ : BodyState}

/-- Nothing at all. -/
theorem Spells.refl (h : StandsIn k path cx known s) : Spells d k path cx known [] [] [] s s :=
  ⟨rfl, by simp, by rwa [List.append_nil], ⟨[], (List.append_nil _).symm, .nil⟩, ⟨_, .refl _⟩⟩

theorem Spells.trans (h : Spells d k path cx known types uses texts s s₁)
    (h' : Spells d k path cx (known ++ types) types' uses' texts' s₁ s₂) :
    Spells d k path cx known (types ++ types') (uses ++ uses') (texts ++ texts') s s₂ := by
  obtain ⟨news, hclasses, hat⟩ := h.classes
  obtain ⟨news', hclasses', hat'⟩ := h'.classes
  obtain ⟨added, hgrows⟩ := h.grows
  obtain ⟨added', hgrows'⟩ := h'.grows
  refine ⟨?_, ?_, ?_, ⟨news ++ news', ?_, ?_⟩, ⟨_, hgrows.trans hgrows'⟩⟩
  · rw [h.texts, h'.texts, List.map_append]
  · intro u hu
    rw [← List.append_assoc]
    rcases List.mem_append.mp hu with hu | hu
    · exact (h.before u hu).trans (List.prefix_append _ _)
    · exact h'.before u hu
  · rw [← List.append_assoc]
    exact h'.stands
  · rw [hclasses', hclasses, List.append_assoc]
  · exact List.rel_append (hat.imp fun _ _ ht => ht.grows h.stands.lt hgrows') hat'

/-- Things that are written one after another. -/
theorem Spells.items {α : Type} {known : List Known}
    (h : StandsIn k path cx (known.map Known.decl) s) (xs : List α) (item : α → Item)
    (htexts : texts = xs.map fun x => itemText d s.cx (item x)) :
    Spells d k path cx (known.map Known.decl) [] (xs.map fun x => ⟨known, item x⟩) texts s s := by
  refine { Spells.refl (d := d) h with texts := ?_, before := ?_ }
  · rw [htexts, h.cx, List.map_map]
    rfl
  · intro u hu
    obtain ⟨x, -, rfl⟩ := List.mem_map.mp hu
    exact List.prefix_append _ _

/-- Something that is written in front of what follows. -/
theorem Spells.head {known : List Known}
    (h : Spells d k path cx (known.map Known.decl) types uses texts s s₁)
    (hs : StandsIn k path cx (known.map Known.decl) s) (item : Item) :
    Spells d k path cx (known.map Known.decl) types (⟨known, item⟩ :: uses)
      (itemText d s.cx item :: texts) s s₁ :=
  (Spells.items hs [item] id rfl).trans (by rwa [List.append_nil])

/-- A context that comes to know one more type. -/
theorem Context.declareLocal_knowing (cx : Context) (path : List String) (known : List TypeDecl)
    (decl : TypeDecl) : (cx.knowing path known).declareLocal decl.name
      (path ++ [definedName cx.method decl]) = cx.knowing path (known ++ [decl]) := by
  simp [Context.declareLocal, Context.knowing]

/-- A type of the body is known from its declaration on. -/
theorem spells_type (h : StandsIn k path cx known s) (hcx : cx.module = some k)
    (comments : List String) (decl : TypeDecl) :
    Spells d k path cx known [decl] [] [] s (lower d s (.type comments decl)).2 := by
  have hmodule : s.cx.module = some k := by rw [h.cx, ← hcx]; rfl
  have hmethod : s.cx.method = cx.method := by rw [h.cx]; rfl
  have hat := typeAt_declareType (d := d) hmodule h.lt comments decl
  have hgrows := grows_declareType d s.cx comments s.graph decl
  have hpath := (hgrows.path h.lt).trans h.path
  have hname := name_declareType d s.cx comments s.graph decl
  have hfst := declareType_fst d s.cx comments s.graph decl
  rw [hmethod] at hat
  rw [lower]
  refine ⟨rfl, by simp, ⟨?_, Nat.lt_of_lt_of_le h.lt hgrows.size, hpath⟩,
    ⟨[s.graph.size], ?_, ?_⟩, ⟨_, hgrows⟩⟩
  · show s.cx.declareLocal _ _ = _
    rw [hfst, hname, hat.path, hpath, h.cx]
    exact cx.declareLocal_knowing path known decl
  · simp only [hfst]
  · exact .cons hat .nil

variable (d)

/-- The values that the labels of a group name. -/
theorem values_labels (cx : Context) (labels : List (Option Expr)) :
    Flow.values (labels.map fun
      | some e => .value (exprText d cx e)
      | none => .otherwise) = (labels.filterMap id).map fun e => itemText d cx (.expr e) := by
  induction labels with
  | nil => rfl
  | cons label rest ih => cases label <;> simpa [Flow.values, itemText] using ih

mutual

theorem spells_lowerAll (known : List Known) (s : BodyState)
    (h : StandsIn k path cx (known.map Known.decl) s) (hcx : cx.module = some k) :
    ∀ body : List Statement,
    Spells d k path cx (known.map Known.decl) (bodyTypes body) (bodyUses known body)
      (Flow.exprTexts (lowerAll d s body).1) s (lowerAll d s body).2
  | [] => by
    rw [lowerAll, bodyTypes, bodyUses]
    exact .refl h
  | st :: rest => by
    have hst := spells_lower known s h hcx st
    have hrest := spells_lowerAll (known ++ st.knows) _
      (by rw [List.map_append, map_decl_knows]; exact hst.stands) hcx rest
    rw [List.map_append, map_decl_knows] at hrest
    rw [lowerAll, bodyTypes, bodyUses]
    simp only [Flow.exprTexts_append]
    exact hst.trans hrest

theorem spells_lower (known : List Known) (s : BodyState)
    (h : StandsIn k path cx (known.map Known.decl) s) (hcx : cx.module = some k) :
    ∀ st : Statement,
    Spells d k path cx (known.map Known.decl) st.types (st.uses known)
      (Flow.exprTexts (lower d s st).1) s (lower d s st).2
  | .type comments decl => by
    rw [Statement.types, Statement.uses]
    exact spells_type h hcx comments decl
  | .block body | .labeled _ body => by
    have hbody := spells_lowerAll known s h hcx body
    rw [lower, Statement.types, Statement.uses]
    simpa [Flow.exprTexts, Flow.Stmt.exprTexts] using hbody
  | .loop condition body => by
    have hbody := spells_lowerAll known s h hcx body
    rw [lower, Statement.types, Statement.uses]
    simpa [Flow.exprTexts, Flow.Stmt.exprTexts, itemText] using hbody.head h (.expr condition)
  | .ifThen condition thenBranch elseBranch => by
    have hthen := spells_lowerAll known s h hcx thenBranch
    have helse := spells_lowerElse (known ++ (bodyTypes thenBranch).map (⟨·, false⟩)) _
      (by simpa [Function.comp_def] using hthen.stands) hcx elseBranch
    have hboth := hthen.trans (by simpa [Function.comp_def] using helse)
    rw [lower, Statement.types, Statement.uses]
    simpa [Flow.exprTexts, Flow.Stmt.exprTexts, itemText] using hboth.head h (.expr condition)
  | .switch value groups => by
    have hgroups := spells_lowerGroups known s h hcx groups
    rw [lower, Statement.types, Statement.uses]
    simpa [Flow.exprTexts, Flow.Stmt.exprTexts, itemText] using hgroups.head h (.expr value)
  | .comment _ | .leave _ => by
    rw [lower, Statement.types, Statement.uses]
    exact .refl h
  | .variables declarators => by
    rw [lower, Statement.types, Statement.uses]
    refine .items h declarators Item.variable ?_
    induction declarators with
    | nil => rfl
    | cons v rest ih => exact congrArg _ ih
  | .expr e | .throw e => by
    rw [lower, Statement.types, Statement.uses]
    exact .items h [e] Item.expr rfl
  | .invoke arguments => by
    rw [lower, Statement.types, Statement.uses]
    exact .items h [arguments] Item.call rfl
  | .return value => by
    rw [lower, Statement.types, Statement.uses]
    refine .items h value.toList Item.expr ?_
    cases value <;> rfl

theorem spells_lowerElse (known : List Known) (s : BodyState)
    (h : StandsIn k path cx (known.map Known.decl) s) (hcx : cx.module = some k) :
    ∀ body : Option (List Statement),
    Spells d k path cx (known.map Known.decl) (elseTypes body) (elseUses known body)
      (Flow.elseExprTexts (lowerElse d s body).1) s (lowerElse d s body).2
  | none => by
    rw [lowerElse, elseTypes, elseUses]
    exact .refl h
  | some body => by
    rw [lowerElse, elseTypes, elseUses]
    exact spells_lowerAll known s h hcx body

theorem spells_lowerGroups (known : List Known) (s : BodyState)
    (h : StandsIn k path cx (known.map Known.decl) s) (hcx : cx.module = some k) :
    ∀ groups : List (SwitchGroup Statement),
    Spells d k path cx (known.map Known.decl) (groupTypes groups) (groupUses known groups)
      (Flow.branchExprTexts (lowerGroups d s groups).1) s (lowerGroups d s groups).2
  | [] => by
    rw [lowerGroups, groupTypes, groupUses]
    exact .refl h
  | ⟨labels, body⟩ :: rest => by
    have hbody := spells_lowerAll known s h hcx body
    have hrest := spells_lowerGroups (known ++ (bodyTypes body).map (⟨·, false⟩)) _
      (by simpa [Function.comp_def] using hbody.stands) hcx rest
    have hlabels := Spells.items h (labels.filterMap id) Item.expr (values_labels d s.cx labels)
    have hboth := hlabels.trans (by rw [List.append_nil]; exact hbody)
    rw [List.nil_append] at hboth
    rw [lowerGroups, groupTypes, groupUses]
    exact hboth.trans (by simpa [Function.comp_def] using hrest)

end

end

end Rubify.Program
