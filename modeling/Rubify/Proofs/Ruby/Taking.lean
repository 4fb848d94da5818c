import Rubify.Proofs.Program.Invariant
import Rubify.Ruby.Module

/-!
# Writing takes every body once

The walk that writes a unit takes the statements out of each body that it meets, and a body without
statements is an error. Here are the lines of the same walk as functions of the graph alone, where each
body is read as if nothing had been taken (`unitLayout`). In a graph whose lists are right and whose
static members are in order, the walk gives these lines and leaves nothing in any body. So every body is
met, and none is met twice.

Headlines:
* **`takeUnit_eq`**: the walk gives the lines of the graph as it was, and leaves every body taken.
* **`untaken_takeUnit`**: the walk meets no body that was taken before.
* **`emptied_takeUnit`**: the walk leaves no body out.
-/

namespace Rubify.Program

/-! ## Without bodies -/

/-- The body without its statements. -/
def Body.taken (b : Body) : Body := b.take.2

/-- The body of a method without its statements, if it has any. -/
def MethodBody.taken : MethodBody → MethodBody
  | .pending body => .pending body.taken
  | body => body

/-- The method without the statements of its body. -/
def Method.taken (m : Method) : Method := { m with body := m.body.taken }

/-- The constructor without the statements of its body. -/
def Constructor.taken (c : Constructor) : Constructor := { c with body := c.body.taken }

/-- The static block without its statements. -/
def StaticBlock.taken (b : StaticBlock) : StaticBlock := { b with body := b.body.taken }

/-- The module without the statements of the static blocks at some places. -/
def Module.withoutBlocks (m : Module) (indices : List Nat) : Module :=
  { m with staticBlocks := m.staticBlocks.mapIdx fun i b => if i ∈ indices then b.taken else b }

/-- The module without any statements. -/
def Module.taken (m : Module) : Module :=
  { m with
    constructors := m.constructors.map Constructor.taken
    methods := m.methods.map Method.taken
    staticBlocks := m.staticBlocks.map StaticBlock.taken }

/-- The graph without the statements of some modules. -/
def Graph.without (g : Graph) (ids : List ModuleId) : Graph :=
  { g with modules := g.modules.mapIdx fun k m => if k ∈ ids then m.taken else m }

/-- The graph without any statements. -/
def Graph.taken (g : Graph) : Graph :=
  { g with modules := g.modules.map Module.taken }

/-- The statements that are to be written in a method, if there are any. -/
def MethodBody.pending? : MethodBody → Option Body
  | .pending body => some body
  | .abstract | .native | .synthesized _ => none

/-- All bodies of a module. -/
def Module.bodies (m : Module) : List Body :=
  m.constructors.map Constructor.body ++ m.methods.filterMap (·.body.pending?) ++
    m.staticBlocks.map StaticBlock.body

/-- No statements have been taken out of a module. -/
structure Module.Present (m : Module) : Prop where
  constructors : ∀ c ∈ m.constructors, c.body.isTaken = false
  methods : ∀ method ∈ m.methods, method.body.isPresent = true
  staticBlocks : ∀ b ∈ m.staticBlocks, b.body.isTaken = false

theorem Module.bodies_taken (m : Module) : m.taken.bodies = m.bodies.map Body.taken := by
  have hmethod : (fun method : Method => method.taken.body.pending?) =
      fun method => method.body.pending?.map Body.taken := by
    funext method
    unfold Method.taken MethodBody.taken
    cases method.body <;> rfl
  simp only [Module.bodies, Module.taken, List.map_append, List.map_map, List.map_filterMap,
    List.filterMap_map, Function.comp_def, hmethod]
  rfl

theorem Module.withoutBlocks_nil (m : Module) : m.withoutBlocks [] = m := by
  have : m.staticBlocks.mapIdx (fun i b => if i ∈ ([] : List Nat) then b.taken else b) =
      m.staticBlocks := by
    apply List.ext_getElem?
    intro i
    simp
  rw [withoutBlocks, this]

theorem Module.getElem?_withoutBlocks (m : Module) (indices : List Nat) (i : Nat) :
    (m.withoutBlocks indices).staticBlocks[i]? =
      m.staticBlocks[i]?.map fun b => if i ∈ indices then b.taken else b := by
  simp [withoutBlocks]

/-- Taking out one more block. -/
theorem Module.set_withoutBlocks {m : Module} {i : Nat} {b : StaticBlock} (indices : List Nat)
    (hb : m.staticBlocks[i]? = some b) :
    { m.withoutBlocks indices with
      staticBlocks := (m.withoutBlocks indices).staticBlocks.set i b.taken } =
      m.withoutBlocks (indices ++ [i]) := by
  have hlt := (List.getElem?_eq_some_iff.mp hb).1
  have : (m.withoutBlocks indices).staticBlocks.set i b.taken =
      (m.withoutBlocks (indices ++ [i])).staticBlocks := by
    apply List.ext_getElem?
    intro k
    rw [List.getElem?_set, m.getElem?_withoutBlocks, m.getElem?_withoutBlocks]
    by_cases hk : i = k
    · subst hk
      have hlen : i < (m.withoutBlocks indices).staticBlocks.length := by
        simpa [withoutBlocks] using hlt
      rw [if_pos rfl, if_pos hlen, hb]
      simp
    · simp [hk, Ne.symm hk]
  rw [this]
  rfl

/-- All blocks are taken out once each of their places was named. -/
theorem Module.withoutBlocks_range (m : Module) :
    (m.withoutBlocks (List.range m.staticBlocks.length)).staticBlocks =
      m.staticBlocks.map StaticBlock.taken := by
  apply List.ext_getElem?
  intro i
  rw [m.getElem?_withoutBlocks, List.getElem?_map]
  cases hb : m.staticBlocks[i]? with
  | none => rfl
  | some b =>
    have hlt := (List.getElem?_eq_some_iff.mp hb).1
    simp [hlt]

theorem Module.taken_taken (m : Module) : m.taken.taken = m.taken := by
  have hmethod : Method.taken ∘ Method.taken = Method.taken := by
    funext m
    unfold Function.comp Method.taken MethodBody.taken
    cases m.body <;> rfl
  simp only [Module.taken, List.map_map, hmethod]
  rfl

namespace Graph

theorem get?_without (g : Graph) (ids : List ModuleId) (k : ModuleId) :
    (g.without ids).get? k = (g.get? k).map fun m => if k ∈ ids then m.taken else m := by
  simp [get?, without]

/-- A graph is its modules and what it holds besides. -/
theorem ext_get? {g g' : Graph} (hlinks : g.links = g'.links) (hpackage : g.package = g'.package)
    (himports : g.imports = g'.imports) (hcomments : g.comments = g'.comments)
    (h : ∀ k, g.get? k = g'.get? k) : g = g' := by
  cases g
  cases g'
  simp only at hlinks hpackage himports hcomments
  subst hlinks hpackage himports hcomments
  congr 1
  exact Array.ext_getElem? h

theorem without_nil (g : Graph) : g.without [] = g :=
  ext_get? rfl rfl rfl rfl fun k => by simp [get?_without]

theorem without_append (g : Graph) (ids more : List ModuleId) :
    (g.without ids).without more = g.without (ids ++ more) := by
  refine ext_get? rfl rfl rfl rfl fun k => ?_
  rw [get?_without, get?_without, get?_without, Option.map_map]
  congr 1
  funext m
  by_cases hids : k ∈ ids <;> by_cases hmore : k ∈ more <;> simp [hids, hmore, Module.taken_taken]

/-- A module that is replaced by itself without bodies. -/
theorem modify_eq_without {g : Graph} {id : ModuleId} {m : Module} (hm : g.get? id = some m) :
    (g.modify id fun _ => m.taken) = g.without [id] := by
  refine ext_get? rfl rfl rfl rfl fun k => ?_
  rw [get?_modify, get?_without]
  by_cases hk : k = id
  · subst hk
    simp [hm]
  · simp [hk]

/-- Nothing is left once every module was visited. -/
theorem without_of_perm {g : Graph} {ids : List ModuleId} (h : ids.Perm (List.range g.size)) :
    g.without ids = g.taken := by
  refine ext_get? rfl rfl rfl rfl fun k => ?_
  rw [get?_without]
  cases hm : g.get? k with
  | none => simp_all [get?, taken]
  | some m =>
    have hk : k ∈ ids := h.mem_iff.mpr (List.mem_range.mpr (lt_of_get? hm))
    have hm' : g.modules[k]? = some m := hm
    simp [hk, get?, taken, hm']

end Graph

end Rubify.Program

namespace Rubify.Ruby

open Program

/-! ## The lines alone -/

/-- The normalised statements of a body. -/
def normalizedBody (o : Options) (owner : String) (b : Body) : Except RenderError (List Flow.Stmt) :=
  Prod.fst <$> takeBody o owner b

/-- The lines inside a method. -/
def methodBodyLayout (o : Options) (owner : String) (m : Method) : Except RenderError (List Layout) :=
  Prod.fst <$> takeMethodBody o owner m

/-- The lines of a method. -/
def methodLayout (o : Options) (owner : String) (m : Method) : Except RenderError (List Layout) :=
  Prod.fst <$> takeMethod o owner m

/-- The section of the constructors, unless there are none. -/
def constructorsSection (o : Options) (m : Module) : Except RenderError (List (List Layout)) :=
  Prod.fst <$> takeConstructors o m

/-- The lines of a static member. -/
def staticLayout (o : Options) (m : Module) (s : StaticMember) : Except RenderError (List Layout) :=
  Prod.fst <$> takeStatic o m s

/-- The section of the static members in source order, unless there are none. -/
def staticsSection (o : Options) (m : Module) : Except RenderError (List (List Layout)) :=
  if m.staticOrder.isEmpty then return []
  else (fun lines => [lines.flatten]) <$> m.staticOrder.mapM (staticLayout o m)

/-- The lines of a module, given those of the modules inside it. -/
def moduleLayout (o : Options) (m : Module) (nested : List (List Layout)) :
    Except RenderError (List Layout) := do
  let constructors ← constructorsSection o m
  let methods ← m.methods.mapM (methodLayout o m.name)
  let statics ← staticsSection o m
  return frameLayout o m (nested ++ constructors ++ methods ++ statics)

/-- The lines of the module `id` and everything in it. -/
def graphLayout (o : Options) (g : Graph) (id : ModuleId) : Except RenderError (List Layout) := do
  let nested ← (g.nested id).attach.mapM fun ⟨child, h⟩ =>
    have := Links.lt_of_mem_nested h
    graphLayout o g child
  (g.get? id).elim (return []) fun m => moduleLayout o m nested
termination_by g.links.size - id
decreasing_by simp only [ModuleId] at *; omega

/-- The lines of a compilation unit. -/
def unitLayout (o : Options) (g : Graph) : Except RenderError (List Layout) :=
  unitFrame o g <$> g.roots.mapM (graphLayout o g)

/-! ## One module -/

/-- What adds up over layouts and is nothing for a gap does not see the gaps between sections. -/
theorem joinSections_hom {α : Type} {f : List Layout → List α}
    (happend : ∀ xs ys, f (xs ++ ys) = f xs ++ f ys) (hgap : f [.gap] = [])
    (sections : List (List Layout)) : f (joinSections sections) = f sections.flatten := by
  unfold joinSections
  induction sections with
  | nil => rfl
  | cons first rest ih =>
    cases rest with
    | nil => rfl
    | cons second rest =>
      rw [List.intersperse_cons_cons, List.flatten_cons, List.flatten_cons, happend, happend, hgap,
        ih, List.nil_append, List.flatten_cons (l := first), happend]

variable {o : Options} {m : Module}

theorem takeBody_eq (o : Options) (owner : String) (b : Body) :
    takeBody o owner b = (fun stmts => (stmts, b.taken)) <$> normalizedBody o owner b := by
  obtain ⟨stmts⟩ := b
  cases stmts with
  | none => rfl
  | some stmts =>
    simp only [normalizedBody, takeBody, Body.take, Body.taken]
    cases Flow.normalize o.closure stmts <;> rfl

/-- A body has normalised statements iff it has statements and they can be normalised. -/
theorem normalizedBody_eq_ok {owner : String} {b : Body} {stmts : List Flow.Stmt} :
    normalizedBody o owner b = .ok stmts ↔
      ∃ source, b.stmts = some source ∧ Flow.normalize o.closure source = .ok stmts := by
  obtain ⟨source⟩ := b
  cases source with
  | none => simp [normalizedBody, takeBody, Body.take, Functor.map, Except.map]
  | some source =>
    simp only [normalizedBody, takeBody, Body.take, Option.some.injEq, exists_eq_left']
    cases Flow.normalize o.closure source <;> simp [Functor.map, Except.map]

theorem takeEach_eq {α β ε : Type} {f : α → Except ε (β × α)} {g : α → Except ε β} {t : α → α}
    (h : ∀ x, f x = (fun y => (y, t x)) <$> g x) (xs : List α) :
    takeEach f xs = (fun ys => (ys, xs.map t)) <$> xs.mapM g := by
  induction xs with
  | nil => rfl
  | cons x rest ih =>
    rw [takeEach, h x, ih, List.mapM_cons]
    cases g x with
    | error e => rfl
    | ok y => cases rest.mapM g <;> rfl

theorem takeConstructor_eq (o : Options) (name : String) (c : Constructor) :
    takeConstructor o name c =
      (fun stmts => (stmts, c.taken)) <$> normalizedBody o (name ++ "#initialize") c.body := by
  rw [takeConstructor, takeBody_eq]
  cases normalizedBody o (name ++ "#initialize") c.body <;> rfl

/-- The statements of all constructors come first, then the lines of each at its place. -/
theorem takeConstructors_of_ne_nil (h : m.constructors.isEmpty = false) :
    takeConstructors o m =
      (fun sections => (sections, { m with constructors := m.constructors.map Constructor.taken })) <$>
        (do
          let stmts ← m.constructors.mapM fun c => normalizedBody o (m.name ++ "#initialize") c.body
          let lines ← overloadsLayout o m.name m.constructors
            (List.zipWith (constructorBodyLayout o m) m.constructors stmts)
          return [lines]) := by
  rw [takeConstructors, h, takeEach_eq (takeConstructor_eq o m.name)]
  cases m.constructors.mapM fun c => normalizedBody o (m.name ++ "#initialize") c.body with
  | error e => rfl
  | ok stmts =>
    simp only [Functor.map, Except.map, bind, Except.bind]
    cases overloadsLayout o m.name m.constructors
      (List.zipWith (constructorBodyLayout o m) m.constructors stmts) <;> rfl

theorem takeConstructors_eq (o : Options) (m : Module) :
    takeConstructors o m =
      (fun sections => (sections, { m with constructors := m.constructors.map Constructor.taken })) <$>
        constructorsSection o m := by
  cases h : m.constructors.isEmpty with
  | true =>
    have hnil := List.isEmpty_iff.mp h
    obtain ⟨⟩ := m
    simp only at hnil
    subst hnil
    rfl
  | false =>
    rw [constructorsSection, takeConstructors_of_ne_nil h]
    generalize (m.constructors.mapM fun c =>
      normalizedBody o (m.name ++ "#initialize") c.body) >>= _ = outcome
    cases outcome <;> rfl

theorem takeMethodBody_eq (o : Options) (owner : String) (m : Method) :
    takeMethodBody o owner m = (fun lines => (lines, m.body.taken)) <$> methodBodyLayout o owner m := by
  unfold methodBodyLayout takeMethodBody MethodBody.taken
  cases m.body with
  | pending body =>
    simp only [takeBody_eq]
    cases normalizedBody o owner body <;> rfl
  | abstract | native | synthesized => rfl

theorem methodBodyLayout_of_pending {owner : String} {method : Method} {body : Body}
    (h : method.body = .pending body) : methodBodyLayout o owner method =
      statementsLayout o method <$> normalizedBody o owner body := by
  simp only [methodBodyLayout, takeMethodBody, h, takeBody_eq]
  cases normalizedBody o owner body <;> rfl

theorem methodLayout_eq (o : Options) (owner : String) (m : Method) : methodLayout o owner m =
    methodFrame o m <$> methodBodyLayout o (owner ++ "#" ++ m.name) m := by
  rw [methodLayout, takeMethod, takeMethodBody_eq]
  cases methodBodyLayout o (owner ++ "#" ++ m.name) m <;> rfl

theorem takeMethod_eq (o : Options) (owner : String) (m : Method) :
    takeMethod o owner m = (fun lines => (lines, m.taken)) <$> methodLayout o owner m := by
  rw [methodLayout_eq, takeMethod, takeMethodBody_eq]
  cases methodBodyLayout o (owner ++ "#" ++ m.name) m <;> rfl

theorem takeMethods_eq (o : Options) (m : Module) :
    takeMethods o m = (fun lines => (lines, { m with methods := m.methods.map Method.taken })) <$>
      m.methods.mapM (methodLayout o m.name) := by
  rw [takeMethods, takeEach_eq (takeMethod_eq o m.name)]
  cases m.methods.mapM (methodLayout o m.name) <;> rfl

theorem staticLayout_field (o : Options) (m : Module) (i : Nat) : staticLayout o m (.field i) =
    .ok (m.staticFields[i]?.elim [] fun f =>
      commentLayout o.comments f.comments ++ [.line (f.classVariable ++ " = " ++ f.value)]) := by
  rw [staticLayout, takeStatic]
  cases m.staticFields[i]? <;> rfl

theorem staticLayout_constant (o : Options) (m : Module) (i : Nat) : staticLayout o m (.constant i) =
    .ok (m.constants[i]?.elim [] fun c =>
      commentLayout o.comments c.comments ++ [.line (c.rubyName ++ " = " ++ c.value)]) := by
  rw [staticLayout, takeStatic]
  cases m.constants[i]? <;> rfl

theorem staticLayout_block (o : Options) (m : Module) (i : Nat) : staticLayout o m (.block i) =
    m.staticBlocks[i]?.elim (.ok []) fun b =>
      (fun stmts => commentLayout o.comments b.comments ++ bodyLayout o.comments stmts) <$>
        normalizedBody o (m.name ++ "#static") b.body := by
  rw [staticLayout, takeStatic]
  cases m.staticBlocks[i]? with
  | none => rfl
  | some b =>
    simp only [takeBody_eq, Option.elim_some]
    cases normalizedBody o (m.name ++ "#static") b.body <;> rfl

/-- The static members do not depend on the constructors and the methods. -/
theorem staticLayout_with (constructors : List Constructor) (methods : List Method)
    (s : StaticMember) : staticLayout o { m with constructors, methods } s = staticLayout o m s := by
  cases s with
  | field i => rw [staticLayout_field, staticLayout_field]
  | constant i => rw [staticLayout_constant, staticLayout_constant]
  | block i => rw [staticLayout_block, staticLayout_block]

/-- Blocks that were taken before do not matter to a block that was not. -/
theorem takeStatic_eq {indices : List Nat} {s : StaticMember}
    (hs : ∀ i, s.blockIndex? = some i → i ∉ indices ∧ i < m.staticBlocks.length) :
    takeStatic o (m.withoutBlocks indices) s =
      (fun lines => (lines, m.withoutBlocks (indices ++ s.blockIndex?.toList))) <$>
        staticLayout o m s := by
  unfold staticLayout
  cases s with
  | field i =>
    have hsame : (m.withoutBlocks indices).staticFields = m.staticFields := rfl
    simp only [takeStatic, hsame, StaticMember.blockIndex?, Option.toList_none, List.append_nil]
    cases m.staticFields[i]? <;> rfl
  | constant i =>
    have hsame : (m.withoutBlocks indices).constants = m.constants := rfl
    simp only [takeStatic, hsame, StaticMember.blockIndex?, Option.toList_none, List.append_nil]
    cases m.constants[i]? <;> rfl
  | block i =>
    obtain ⟨hi, hlt⟩ := hs i rfl
    have hb := List.getElem?_eq_getElem hlt
    have hset := Module.set_withoutBlocks indices hb
    have hname : (m.withoutBlocks indices).name = m.name := rfl
    simp only [takeStatic, m.getElem?_withoutBlocks, if_neg hi, StaticMember.blockIndex?,
      Option.toList_some, hb, hname, Option.map_some, takeBody_eq, ← hset]
    cases normalizedBody o (m.name ++ "#static") m.staticBlocks[i].body <;> rfl

theorem takeStaticsIn_eq (order : List StaticMember) (indices : List Nat)
    (hnodup : (order.filterMap StaticMember.blockIndex?).Nodup)
    (horder : ∀ i ∈ order.filterMap StaticMember.blockIndex?,
      i ∉ indices ∧ i < m.staticBlocks.length) :
    takeStaticsIn o (m.withoutBlocks indices) order =
      (fun lines => (lines.flatten,
        m.withoutBlocks (indices ++ order.filterMap StaticMember.blockIndex?))) <$>
        order.mapM (staticLayout o m) := by
  induction order generalizing indices with
  | nil =>
    rw [List.filterMap_nil, List.append_nil]
    rfl
  | cons s rest ih =>
    have hsplit : (s :: rest).filterMap StaticMember.blockIndex? =
        s.blockIndex?.toList ++ rest.filterMap StaticMember.blockIndex? := by
      cases s <;> rfl
    rw [hsplit] at hnodup horder ⊢
    obtain ⟨-, hrest, hdisjoint⟩ := List.nodup_append.mp hnodup
    have hs : ∀ i, s.blockIndex? = some i → i ∉ indices ∧ i < m.staticBlocks.length :=
      fun i hi => horder i (List.mem_append_left _ (Option.mem_toList.mpr hi))
    have hmore := ih (indices ++ s.blockIndex?.toList) hrest fun i hi => by
      obtain ⟨hnot, hlt⟩ := horder i (List.mem_append_right _ hi)
      refine ⟨fun hmem => ?_, hlt⟩
      rcases List.mem_append.mp hmem with hmem | hmem
      · exact hnot hmem
      · exact hdisjoint i hmem i hi rfl
    rw [takeStaticsIn, takeStatic_eq hs, List.mapM_cons, ← List.append_assoc]
    cases staticLayout o m s with
    | error e => rfl
    | ok lines =>
      show (takeStaticsIn o (m.withoutBlocks (indices ++ s.blockIndex?.toList)) rest >>= _) = _
      rw [hmore]
      cases rest.mapM (staticLayout o m) <;> rfl

theorem takeStatics_eq (h : m.InOrder) :
    takeStatics o m =
      (fun sections => (sections, { m with staticBlocks := m.staticBlocks.map StaticBlock.taken })) <$>
        staticsSection o m := by
  have hblocks : m.withoutBlocks (List.range m.staticBlocks.length) =
      { m with staticBlocks := m.staticBlocks.map StaticBlock.taken } := by
    rw [← m.withoutBlocks_range]
    rfl
  unfold takeStatics staticsSection
  by_cases hempty : m.staticOrder.isEmpty = true
  · -- Without static members there are no static blocks.
    have hnil : m.staticBlocks = [] := by
      have := h.blocks
      rw [List.isEmpty_iff.mp hempty, List.filterMap_nil] at this
      exact List.length_eq_zero_iff.mp (List.range_eq_nil.mp this.symm)
    rw [if_pos hempty, if_pos hempty, ← hblocks, hnil, List.length_nil, List.range_zero,
      m.withoutBlocks_nil]
    rfl
  · have hstatics := takeStaticsIn_eq (o := o) (m := m) m.staticOrder [] (h.blocks ▸ List.nodup_range)
      fun i hi => by
        rw [h.blocks, List.mem_range] at hi
        exact ⟨List.not_mem_nil, hi⟩
    rw [m.withoutBlocks_nil, List.nil_append, h.blocks, hblocks] at hstatics
    rw [if_neg hempty, if_neg hempty, hstatics]
    cases m.staticOrder.mapM (staticLayout o m) <;> rfl

theorem takeModule_eq (nested : List (List Layout)) (h : m.InOrder) :
    takeModule o nested m = (fun lines => (lines, m.taken)) <$> moduleLayout o m nested := by
  have hmethods := takeMethods_eq o { m with constructors := m.constructors.map Constructor.taken }
  have hstatics := takeStatics_eq (o := o) (m :=
    { m with
      constructors := m.constructors.map Constructor.taken
      methods := m.methods.map Method.taken }) ⟨h.fields, h.constants, h.blocks⟩
  rw [moduleLayout, takeModule, takeConstructors_eq]
  cases constructorsSection o m with
  | error e => rfl
  | ok constructors =>
    show (takeMethods o { m with constructors := m.constructors.map Constructor.taken } >>= _) =
      _ <$> (m.methods.mapM (methodLayout o m.name) >>= _)
    rw [hmethods]
    dsimp only
    cases m.methods.mapM (methodLayout o m.name) with
    | error e => rfl
    | ok methods =>
      show (takeStatics o
        { m with
          constructors := m.constructors.map Constructor.taken
          methods := m.methods.map Method.taken } >>= _) = _ <$> (staticsSection o m >>= _)
      rw [hstatics]
      have hsame : staticsSection o
          { m with
            constructors := m.constructors.map Constructor.taken
            methods := m.methods.map Method.taken } = staticsSection o m := by
        unfold staticsSection
        rw [funext (staticLayout_with (o := o) (m := m) _ _)]
      rw [hsame]
      cases staticsSection o m <;> rfl

/-! ## The walk -/

variable {shape g : Graph}

theorem graphLayout_eq (o : Options) (g : Graph) (id : ModuleId) : graphLayout o g id =
    (g.nested id).mapM (graphLayout o g) >>= fun nested =>
      (g.get? id).elim (.ok []) fun m => moduleLayout o m nested := by
  rw [graphLayout, List.mapM_subtype (g := graphLayout o g) fun child h => rfl, List.unattach_attach]
  rfl

theorem takeGraph_eq_bind (o : Options) (shape : Graph) (id : ModuleId) (g : Graph) :
    takeGraph o shape.links id g = do
      let (nested, g) ← (shape.nested id).mapM (takeGraph o shape.links) g
      match g.get? id with
      | none => return ([], g)
      | some m =>
        let (lines, m) ← takeModule o nested m
        return (lines, g.modify id fun _ => m) := by
  rw [takeGraph, List.mapM_subtype (g := takeGraph o shape.links) fun child h => rfl,
    List.unattach_attach]
  rfl

/-- From here on the graph is as it was, and its modules are in order. -/
structure Fresh (shape g : Graph) (ids : List ModuleId) : Prop where
  same : ∀ k ∈ ids, g.get? k = shape.get? k
  nodup : ids.Nodup
  lt : ∀ k ∈ ids, k < shape.size

theorem Fresh.left {ids more : List ModuleId} (h : Fresh shape g (ids ++ more)) :
    Fresh shape g ids :=
  ⟨fun k hk => h.same k (List.mem_append_left _ hk), (List.nodup_append.mp h.nodup).1,
    fun k hk => h.lt k (List.mem_append_left _ hk)⟩

/-- What is taken first is not what comes next. -/
theorem Fresh.right {ids more : List ModuleId} (h : Fresh shape g (ids ++ more)) :
    Fresh shape (g.without ids) more := by
  obtain ⟨-, hmore, hdisjoint⟩ := List.nodup_append.mp h.nodup
  refine ⟨fun k hk => ?_, hmore, fun k hk => h.lt k (List.mem_append_right _ hk)⟩
  have hnot : k ∉ ids := fun hids => hdisjoint k hids k hk rfl
  rw [Graph.get?_without, h.same k (List.mem_append_right _ hk)]
  simp [hnot]

/-- Several walks one after another, each over its own modules. -/
theorem mapM_takeGraph (ids : List ModuleId)
    (hone : ∀ id ∈ ids, ∀ g, Fresh shape g (shape.visits id) → takeGraph o shape.links id g =
      (fun lines => (lines, g.without (shape.visits id))) <$> graphLayout o shape id)
    (h : Fresh shape g (ids.flatMap shape.visits)) :
    ids.mapM (takeGraph o shape.links) g =
      (fun lines => (lines, g.without (ids.flatMap shape.visits))) <$>
        ids.mapM (graphLayout o shape) := by
  induction ids generalizing g with
  | nil =>
    rw [List.flatMap_nil, Graph.without_nil]
    rfl
  | cons id rest ih =>
    rw [List.flatMap_cons] at h ⊢
    have hfirst := hone id List.mem_cons_self g h.left
    have hrest := ih (fun k hk => hone k (List.mem_cons_of_mem _ hk)) h.right
    rw [List.mapM_cons, List.mapM_cons, ← Graph.without_append]
    show (takeGraph o shape.links id g >>= _) = _
    rw [hfirst]
    cases graphLayout o shape id with
    | error e => rfl
    | ok lines =>
      show (rest.mapM (takeGraph o shape.links) (g.without (shape.visits id)) >>= _) = _
      rw [hrest]
      cases rest.mapM (graphLayout o shape) <;> rfl

/-- The module itself is taken behind everything nested in it. -/
theorem without_visits (g shape : Graph) (id : ModuleId) :
    (g.without ((shape.nested id).flatMap shape.visits)).without [id] =
      g.without (shape.visits id) := by
  rw [Graph.without_append, Graph.visits_eq]
  refine Graph.ext_get? rfl rfl rfl rfl fun k => ?_
  rw [Graph.get?_without, Graph.get?_without]
  simp [or_comm]

theorem takeGraph_eq (horder : ∀ k m, shape.get? k = some m → m.InOrder) (id : ModuleId) :
    ∀ g, Fresh shape g (shape.visits id) → takeGraph o shape.links id g =
      (fun lines => (lines, g.without (shape.visits id))) <$> graphLayout o shape id := by
  intro g h
  have hid : id < shape.size := h.lt id (by rw [Graph.visits_eq]; exact List.mem_cons_self)
  have hperm : (shape.visits id).Perm ((shape.nested id).flatMap shape.visits ++ [id]) := by
    rw [Graph.visits_eq]
    exact (List.perm_append_singleton id _).symm
  have h' : Fresh shape g ((shape.nested id).flatMap shape.visits ++ [id]) :=
    ⟨fun k hk => h.same k (hperm.mem_iff.mpr hk), hperm.nodup_iff.mp h.nodup,
      fun k hk => h.lt k (hperm.mem_iff.mpr hk)⟩
  have hnested := mapM_takeGraph (o := o) (shape.nested id) (fun child hchild =>
    have := Links.lt_of_mem_nested hchild
    takeGraph_eq horder child) h'.left
  cases hm : shape.get? id with
  | none => exact absurd (Graph.get?_eq_none_iff.mp hm) (Nat.not_le.mpr hid)
  | some m =>
    have hsame := h'.right.same id List.mem_cons_self
    rw [hm] at hsame
    rw [takeGraph_eq_bind, hnested, graphLayout_eq, hm, ← without_visits]
    cases (shape.nested id).mapM (graphLayout o shape) with
    | error e => rfl
    | ok nested =>
      show (match (g.without ((shape.nested id).flatMap shape.visits)).get? id with
        | none => _
        | some m => _) = _ <$> moduleLayout o m nested
      rw [hsame]
      show (takeModule o nested m >>= _) = _
      rw [takeModule_eq nested (horder id m hm), ← Graph.modify_eq_without hsame]
      cases moduleLayout o m nested <;> rfl
termination_by shape.links.size - id
decreasing_by simp only [ModuleId] at *; omega

/-- **Taking every body out on the way gives the layout of the unit, and leaves nothing.** -/
theorem takeUnit_eq (hlinked : g.Linked) (horder : ∀ k m, g.get? k = some m → m.InOrder)
    (o : Options) : takeUnit o g = (fun lines => (lines, g.taken)) <$> unitLayout o g := by
  have hperm := Graph.perm_range_visits hlinked
  have hfresh : Fresh g g (g.roots.flatMap g.visits) :=
    ⟨fun k _ => rfl, Graph.nodup_walk hlinked, fun k hk => List.mem_range.mp (hperm.mem_iff.mp hk)⟩
  have hwalk := mapM_takeGraph (o := o) g.roots (fun id _ => takeGraph_eq horder id) hfresh
  have htaken : g.without (g.roots.flatMap g.visits) = g.taken := Graph.without_of_perm hperm
  rw [htaken] at hwalk
  rw [takeUnit, hwalk, unitLayout]
  cases g.roots.mapM (graphLayout o g) <;> rfl

/-! ## No body is met twice -/

/-- No body was found to be taken before. -/
def Untaken {α : Type} (x : Except RenderError α) : Prop :=
  ∀ owner, x ≠ .error (.bodyTaken owner)

section

variable {α β : Type} {x : Except RenderError α}

theorem untaken_ok (a : α) : Untaken (.ok a : Except RenderError α) := by
  intro owner h
  cases h

theorem Untaken.bind {f : α → Except RenderError β} (hx : Untaken x) (hf : ∀ a, Untaken (f a)) :
    Untaken (x >>= f) := by
  cases x with
  | error e =>
    intro owner h
    cases h
    exact hx owner rfl
  | ok a => exact hf a

theorem Untaken.map (f : α → β) (hx : Untaken x) : Untaken (f <$> x) := by
  rw [map_eq_pure_bind]
  exact hx.bind fun a => untaken_ok (f a)

theorem untaken_mapM {f : α → Except RenderError β} {xs : List α} (h : ∀ x ∈ xs, Untaken (f x)) :
    Untaken (xs.mapM f) := by
  induction xs with
  | nil => exact untaken_ok []
  | cons x xs ih =>
    rw [List.mapM_cons]
    refine (h x List.mem_cons_self).bind fun y => ?_
    exact (ih fun x hx => h x (List.mem_cons_of_mem _ hx)).map (y :: ·)

end

theorem untaken_normalizedBody {owner : String} {b : Body} (h : b.isTaken = false) :
    Untaken (normalizedBody o owner b) := by
  obtain ⟨stmts⟩ := b
  cases stmts with
  | none => cases h
  | some stmts =>
    simp only [normalizedBody, takeBody, Body.take]
    intro owner h
    cases hn : Flow.normalize o.closure stmts with
    | error cause => rw [hn] at h; cases h
    | ok out => rw [hn] at h; cases h

theorem untaken_methodLayout {owner : String} {method : Method}
    (h : method.body.isPresent = true) : Untaken (methodLayout o owner method) := by
  rw [methodLayout_eq]
  refine .map _ ?_
  cases hb : method.body with
  | pending body =>
    have hbody : body.isTaken = false := by simpa [hb, MethodBody.isPresent] using h
    rw [methodBodyLayout_of_pending hb]
    exact (untaken_normalizedBody hbody).map _
  | abstract | native | synthesized =>
    rw [methodBodyLayout, takeMethodBody, hb]
    exact untaken_ok _

/-- What is wrong with constructors is not that their bodies are gone. -/
theorem untaken_overloadsLayout (name : String) (constructors : List Constructor)
    (bodies : List (List Layout)) : Untaken (overloadsLayout o name constructors bodies) := by
  have hadd (s : Overloads) (c : Overload) : Untaken (s.add name c) := by
    intro owner h
    unfold Overloads.add at h
    repeat' split at h
    all_goals cases h
  have hfold (cs : List Overload) (s : Overloads) : Untaken (cs.foldlM (Overloads.add name) s) := by
    induction cs generalizing s with
    | nil => exact untaken_ok s
    | cons c cs ih =>
      rw [List.foldlM_cons]
      exact (hadd s c).bind ih
  unfold overloadsLayout
  split
  · exact untaken_ok _
  · exact (hfold _ _).bind fun _ => untaken_ok _

theorem untaken_constructorsSection (h : ∀ c ∈ m.constructors, c.body.isTaken = false) :
    Untaken (constructorsSection o m) := by
  rw [constructorsSection]
  cases hempty : m.constructors.isEmpty with
  | true =>
    rw [takeConstructors, if_pos hempty]
    exact untaken_ok _
  | false =>
    rw [takeConstructors_of_ne_nil hempty]
    refine .map _ (.map _ (.bind ?_ fun stmts => ?_))
    · exact untaken_mapM fun c hc => untaken_normalizedBody (h c hc)
    · exact (untaken_overloadsLayout _ _ _).bind fun _ => untaken_ok _

theorem untaken_staticsSection (h : ∀ b ∈ m.staticBlocks, b.body.isTaken = false) :
    Untaken (staticsSection o m) := by
  unfold staticsSection
  split
  · exact untaken_ok _
  · refine .map _ (untaken_mapM fun member _ => ?_)
    cases member with
    | field i => exact staticLayout_field o m i ▸ untaken_ok _
    | constant i => exact staticLayout_constant o m i ▸ untaken_ok _
    | block i =>
      rw [staticLayout_block]
      cases hb : m.staticBlocks[i]? with
      | none => exact untaken_ok _
      | some b => exact (untaken_normalizedBody (h b (List.mem_of_getElem? hb))).map _

theorem untaken_moduleLayout (h : m.Present) (nested : List (List Layout)) :
    Untaken (moduleLayout o m nested) := by
  refine (untaken_constructorsSection h.constructors).bind fun _ => ?_
  refine (untaken_mapM fun method hm => untaken_methodLayout (h.methods method hm)).bind fun _ => ?_
  exact (untaken_staticsSection h.staticBlocks).bind fun _ => untaken_ok _

theorem untaken_graphLayout (h : ∀ k m, g.get? k = some m → m.Present) (id : ModuleId) :
    Untaken (graphLayout o g id) := by
  rw [graphLayout_eq]
  refine (untaken_mapM fun child hchild => ?_).bind fun nested => ?_
  · have := Links.lt_of_mem_nested hchild
    exact untaken_graphLayout h child
  · cases hm : g.get? id with
    | none => exact untaken_ok _
    | some m => exact untaken_moduleLayout (h id m hm) nested
termination_by g.links.size - id
decreasing_by simp only [ModuleId] at *; omega

/-- **The walk meets no body that was taken before**, if none was when it began. -/
theorem untaken_takeUnit (hlinked : g.Linked) (horder : ∀ k m, g.get? k = some m → m.InOrder)
    (hpresent : ∀ k m, g.get? k = some m → m.Present) (o : Options) : Untaken (takeUnit o g) := by
  rw [takeUnit_eq hlinked horder]
  exact ((untaken_mapM fun id _ => untaken_graphLayout hpresent id).map _).map _

/-! ## No body is left out -/

theorem isTaken_taken (b : Body) : b.taken.isTaken = true := rfl

/-- A body can be taken once. -/
theorem takeBody_of_isTaken {b : Body} (h : b.isTaken = true) (o : Options) (owner : String) :
    takeBody o owner b = .error (.bodyTaken owner) := by
  obtain ⟨stmts⟩ := b
  cases stmts with
  | none => rfl
  | some stmts => cases h

/-- What is left of a graph: as many bodies in as many modules, none of which can be taken again. -/
structure Emptied (g rest : Graph) : Prop where
  size : rest.size = g.size
  bodies : ∀ id m m', g.get? id = some m → rest.get? id = some m' →
    m'.bodies.length = m.bodies.length
  taken : ∀ id m, rest.get? id = some m → ∀ b ∈ m.bodies, b.isTaken = true
  again : ∀ id m, rest.get? id = some m → ∀ b ∈ m.bodies, ∀ o owner,
    takeBody o owner b = .error (.bodyTaken owner)

theorem emptied_taken (g : Graph) : Emptied g g.taken := by
  have hget (id : ModuleId) : g.taken.get? id = (g.get? id).map Module.taken := by
    simp [Graph.get?, Graph.taken]
  have htaken : ∀ id m, g.taken.get? id = some m → ∀ b ∈ m.bodies, b.isTaken = true := by
    intro id m hm b hb
    rw [hget, Option.map_eq_some_iff] at hm
    obtain ⟨before, -, rfl⟩ := hm
    rw [Module.bodies_taken, List.mem_map] at hb
    obtain ⟨body, -, rfl⟩ := hb
    exact isTaken_taken body
  refine ⟨by simp [Graph.size, Graph.taken], fun id m m' hm hm' => ?_, htaken,
    fun id m hm b hb => takeBody_of_isTaken (htaken id m hm b hb)⟩
  rw [hget, hm] at hm'
  cases hm'
  rw [Module.bodies_taken, List.length_map]

/-- **The walk leaves no body out.** -/
theorem emptied_takeUnit (hlinked : g.Linked) (horder : ∀ k m, g.get? k = some m → m.InOrder)
    {lines : List Layout} {rest : Graph} (h : takeUnit o g = .ok (lines, rest)) : Emptied g rest := by
  rw [takeUnit_eq hlinked horder] at h
  cases hl : unitLayout o g with
  | error e => rw [hl] at h; cases h
  | ok lines =>
    rw [hl] at h
    cases h
    exact emptied_taken g

end Rubify.Ruby
