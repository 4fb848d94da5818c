import Rubify.Convert
import Rubify.Proofs.Phrase.Declaration
import Rubify.Proofs.Program.Projection

/-!
# The module of a class

A class is described by its name, its clauses and its members (`ClassOutline`), in any mixture of
fields, methods, constructors, static blocks and nested types. Whatever the mixture, its module is
the description sorted by kinds of members (`ClassOutline.module`): the fields are those of the
members in order, and so on for every other kind. A variable that is static and final is a constant,
another static one a static field. A nested enum makes its constants known in the class as well,
and so does an enum inside a body, just before the member that the body belongs to.

There is one thing in the module that no member describes: a class with fields and without
constructors gets a constructor, so that the fields are set up.

Headline:
* **`ofTree_class`**: the unit of a class is built, and its first module is the one described.
-/

namespace Rubify.Phrase

open Grammar Syntax Program

/-! ## What members describe -/

section

variable (cx : Context)

/-- The text of an initial value. -/
def Variable.value? (v : Variable) : Option String :=
  v.init.map fun s => exprText .ruby cx s.expr

/-- The field that a variable of a type is. -/
def Variable.field (type : String) (v : Variable) : Field :=
  ⟨v.name, cx.resolve (typeRef type), v.value? cx, []⟩

/-- The constant that a variable of a type is: its value is the initial value, or the default of the
type. -/
def Variable.constant (type : String) (v : Variable) : Constant :=
  ⟨v.name, some (cx.resolve (typeRef type)),
    (v.value? cx).getD (cx.resolve (typeRef type)).defaultValue, []⟩

/-- How a constructor begins. -/
def Call.invocation (c : Call) : Program.Invocation :=
  let arguments := Ruby.argumentsText (c.arguments.map fun s => exprText .ruby cx s.expr) true
  if c.toThis then .this arguments else .super arguments

/-- The body of a member in statements: the graph is the one that the member is declared in. -/
def lowered (g : Graph) (body : List BodyStatement) : List Flow.Stmt × List ModuleId :=
  let (stmts, s) := lowerAll .ruby ⟨g, cx, []⟩ (bodyRead body)
  (stmts, s.classes)

/-- A method; without body it is native if declared so, and abstract otherwise. -/
def methodRecord (g : Graph) (words : List Modifier) (generics : List String)
    (returns name : String) (params : Params) (body : Option (List BodyStatement)) : Method :=
  let inner := cx.enterMethod name (has words "static") generics
  { name
    static := has words "static"
    synchronized := has words "synchronized"
    params := params.read.map (paramOf inner)
    returns := inner.resolve (returnRef returns)
    generics
    body := match body with
      | some body => .pending (.of (lowered inner g body).1)
      | none => if has words "native" then .native else .abstract
    localClasses := (body.map fun body => (lowered inner g body).2).getD []
    comments := [] }

end

/-- The name of a constant. -/
def ConstantOutline.name : ConstantOutline → String
  | ⟨name, _, _⟩ => name

namespace MemberOutline

variable (cx : Context) (path : List String) (g : Graph)

/-- The fields of a member. -/
def fields : MemberOutline → List Field
  | .field words type first more =>
    if has words "static" then [] else (first :: more).map (Variable.field cx type)
  | _ => []

/-- The static fields of a member. -/
def staticFields : MemberOutline → List Field
  | .field words type first more =>
    if has words "static" && !has words "final" then (first :: more).map (Variable.field cx type)
    else []
  | _ => []

/-- The constants that a member of the class at `path` makes known in it. -/
def constants : MemberOutline → List Constant
  | .field words type first more =>
    if has words "static" && has words "final" then (first :: more).map (Variable.constant cx type)
    else []
  | .method _ _ _ _ body | .genericMethod _ _ _ _ _ _ body =>
    references path (bodyTypes ((body.map bodyRead).getD []))
  | .constructor _ _ _ _ body | .staticBlock body => references path (bodyTypes (bodyRead body))
  | .nested _ (.enumType name _ constants _) =>
    constants.map fun c => enumReference (path ++ [Text.capitalize name]) c.name
  | .nested _ (.classType ..) | .nested _ (.interfaceType ..) => []

/-- The method that a member is, if it is one. -/
def methods : MemberOutline → List Method
  | .method words returns name params body =>
    [methodRecord cx g words [] returns name params body]
  | .genericMethod words first more returns name params body =>
    [methodRecord cx g words (first :: more) returns name params body]
  | _ => []

/-- The constructor that a member is, if it is one. -/
def constructors : MemberOutline → List Constructor
  | .constructor _ _ params call body =>
    let inner := cx.enterMethod "initialize" false []
    [{ params := params.read.map (paramOf inner)
       generics := []
       invocation := (call.map (Call.invocation inner)).getD .none
       body := .of (lowered inner g body).1
       localClasses := (lowered inner g body).2
       synthesized := false
       comments := [] }]
  | _ => []

/-- The static block that a member is, if it is one. -/
def staticBlocks : MemberOutline → List StaticBlock
  | .staticBlock body =>
    let inner := cx.enterMethod "static" true []
    [⟨.of (lowered inner g body).1, (lowered inner g body).2, []⟩]
  | _ => []

/-- The sorts of a member's static members, in order. -/
def statics (m : MemberOutline) : List StaticSort :=
  (m.constants cx path).map (fun _ => .constant) ++ (m.staticFields cx).map (fun _ => .field) ++
    (m.staticBlocks cx g).map fun _ => .block

/-- All that a member adds to its class. -/
def additions (m : MemberOutline) : List Addition :=
  (m.constants cx path).map .constant ++ (m.fields cx).map .field ++
    (m.staticFields cx).map .staticField ++ (m.methods cx g).map .method ++
    (m.constructors cx g).map .constructor ++ (m.staticBlocks cx g).map .block

end MemberOutline

/-- Members, each with the graph that it is declared in. -/
def stages (cx : Context) (id : ModuleId) : Graph → List MemberOutline →
    List (Graph × MemberOutline)
  | _, [] => []
  | g, m :: more => (g, m) :: stages cx id (declareMember .ruby cx id g m.read) more

/-! ## Classes -/

/-- The graph of a unit without types. -/
def emptyUnit (package : Option String) (imports : List String) : Graph :=
  { package := (package.map Text.segments).getD [], imports := imports.map importOf }

/-- A class in words. -/
structure ClassOutline where
  name : String
  generics : List String
  superclass : Option String
  interfaces : List String
  members : List MemberOutline

namespace ClassOutline

/-- The class as a type. -/
def type (c : ClassOutline) : TypeOutline :=
  .classType c.name c.generics c.superclass c.interfaces c.members

/-- The surroundings of the members. -/
def inner (c : ClassOutline) : Context :=
  { module := some 0, typeParams := c.generics }

/-- The module without its members. -/
def header (c : ClassOutline) : Module :=
  { kind := .topClass
    name := c.name
    owner := {}
    generics := c.generics
    superclass := c.superclass.map fun t => c.inner.resolve (typeRef t)
    interfaces := c.interfaces.map fun t => c.inner.resolve (typeRef t) }

variable (package : Option String) (imports : List String)

/-- The graph that the members are declared in. -/
def start (c : ClassOutline) : Graph :=
  ((emptyUnit package imports).alloc c.header).2

/-- The members, each with the graph that it is declared in. -/
def parts (c : ClassOutline) : List (Graph × MemberOutline) :=
  stages c.inner 0 (c.start package imports) c.members

/-- The constructors that members describe. -/
def written (c : ClassOutline) : List Constructor :=
  (c.parts package imports).flatMap fun part => part.2.constructors c.inner part.1

/-- **The module of a class.** Each list is what the members describe of its sort, in order; and a
class with fields has a constructor, whether it is described or not. -/
def module (c : ClassOutline) : Module :=
  let fields := c.members.flatMap (MemberOutline.fields c.inner)
  let written := c.written package imports
  { c.header with
    fields
    staticFields := c.members.flatMap (MemberOutline.staticFields c.inner)
    constants := c.members.flatMap (MemberOutline.constants c.inner [Text.capitalize c.name])
    constructors :=
      if written.isEmpty && !fields.isEmpty then [.ofInvocation [] .none] else written
    methods := (c.parts package imports).flatMap fun part => part.2.methods c.inner part.1
    staticBlocks := (c.parts package imports).flatMap fun part =>
      part.2.staticBlocks c.inner part.1
    staticOrder := numbered <| (c.parts package imports).flatMap fun part =>
      part.2.statics c.inner [Text.capitalize c.name] part.1 }

end ClassOutline

/-! ## Members add what they describe -/

theorem describe_map {α : Type} (f : List String → Declarator → α) (vs : List Declarator) :
    describe f [] vs = vs.map (f []) := by
  cases vs <;> rfl

section

variable (cx : Context) (id : ModuleId) (g : Graph)

theorem fieldOf_declarator (type : String) (v : Variable) :
    fieldOf .ruby cx [] (v.declarator (typeRef type)) = v.field cx type := by
  obtain ⟨name, init⟩ := v
  cases init <;> rfl

theorem constantOf_declarator (type : String) (v : Variable) :
    constantOf .ruby cx [] (v.declarator (typeRef type)) = v.constant cx type := by
  obtain ⟨name, init⟩ := v
  cases init <;> rfl

theorem fieldAdditions_map (static final : Bool) (type : String) (vs : List Variable) :
    fieldAdditions .ruby cx [] static final (vs.map (Variable.declarator (typeRef type))) =
      if static && final then (vs.map (Variable.constant cx type)).map .constant
      else if static then (vs.map (Variable.field cx type)).map .staticField
      else (vs.map (Variable.field cx type)).map .field := by
  simp only [fieldAdditions, describe_map, List.map_map, Function.comp_def, fieldOf_declarator,
    constantOf_declarator]

theorem methodTypes_methodRead (words : List Modifier) (body : Option (List BodyStatement)) :
    methodTypes (methodRead words body) = bodyTypes ((body.map bodyRead).getD []) := by
  cases body with
  | some body => rfl
  | none =>
    simp only [methodRead, Option.map_none, Option.getD_none, bodyTypes]
    split <;> rfl

theorem memberAdditions_method (words : List Modifier) (generics : List String)
    (returns name : String) (params : Params) (body : Option (List BodyStatement)) :
    memberAdditions .ruby cx id g (.method ⟨[], name, generics, params.read, returnRef returns⟩
        (has words "static") (has words "synchronized") (methodRead words body)) =
      (references (g.path id) (bodyTypes ((body.map bodyRead).getD []))).map .constant ++
        [.method (methodRecord cx g words generics returns name params body)] := by
  rw [memberAdditions, methodTypes_methodRead]
  cases body with
  | some body => simp only [methodRead, lowerMethodBody]; rfl
  | none =>
    cases h : has words "native" <;> simp [methodRead, methodRecord, lowerMethodBody, methodOf, h]

theorem names_readConstants (constants : List ConstantOutline) :
    (readConstants constants).map EnumConstant.name = constants.map ConstantOutline.name := by
  induction constants with
  | nil => rfl
  | cons c more ih =>
    obtain ⟨name, arguments, body⟩ := c
    rw [readConstants, List.map_cons, ih]
    rfl

theorem invocationOf_call (call : Option Call) :
    invocationOf .ruby cx (call.map Call.read) = (call.map (Call.invocation cx)).getD .none := by
  cases call with
  | none => rfl
  | some call => simp [invocationOf, Call.read, Call.invocation, argumentsText, Function.comp_def]

/-- A member adds what it describes. -/
theorem MemberOutline.memberAdditions_read (m : MemberOutline) :
    memberAdditions .ruby cx id g m.read = m.additions cx (g.path id) g := by
  cases m with
  | field words type first more =>
    rw [read, memberAdditions, fieldAdditions_map]
    cases hs : has words "static" <;> cases hf : has words "final" <;>
      simp [additions, fields, staticFields, constants, methods, constructors, staticBlocks, hs, hf]
  | method words returns name params body =>
    rw [read, memberAdditions_method]
    simp [additions, fields, staticFields, constants, methods, constructors, staticBlocks]
  | genericMethod words first more returns name params body =>
    rw [read, memberAdditions_method]
    simp [additions, fields, staticFields, constants, methods, constructors, staticBlocks]
  | constructor words name params call body =>
    rw [read, memberAdditions]
    simp [additions, fields, staticFields, constants, methods, constructors, staticBlocks, lowered,
      invocationOf_call]
  | staticBlock body =>
    rw [read, memberAdditions]
    simp [additions, fields, staticFields, constants, methods, constructors, staticBlocks, lowered]
  | nested words type =>
    rw [read, memberAdditions]
    -- Of the nested types only an enum leaves something in the class around it: a constant for
    -- each of its values.
    cases type with
    | classType | interfaceType =>
      simp [additions, fields, staticFields, constants, methods, constructors, staticBlocks,
        TypeOutline.read, typeReferences]
    | enumType name interfaces values members =>
      have hvalues : (readConstants values).map (fun c =>
          enumReference (g.path id ++ [Text.capitalize name]) c.name) =
          values.map fun c => enumReference (g.path id ++ [Text.capitalize name]) c.name := by
        simpa [Function.comp_def] using congrArg
          (List.map (enumReference (g.path id ++ [Text.capitalize name])))
          (names_readConstants values)
      simp [additions, fields, staticFields, constants, methods, constructors, staticBlocks,
        TypeOutline.read, typeReferences, hvalues]

end

/-- The members of a class add what they describe, one after another. The class keeps its path. -/
theorem membersAdditions_read {cx : Context} {id : ModuleId} (hcx : cx.module = some id)
    (members : List MemberOutline) {g : Graph} (hid : id < g.size) :
    membersAdditions .ruby cx id g (readMembers members) =
      (stages cx id g members).flatMap fun part => part.2.additions cx (g.path id) part.1 := by
  induction members generalizing g with
  | nil => rfl
  | cons m more ih =>
    have hgrows := grows_declareMember .ruby cx id g hcx m.read
    rw [readMembers, membersAdditions, stages, List.flatMap_cons, m.memberAdditions_read,
      ih (Nat.lt_of_lt_of_le hid hgrows.size), hgrows.path hid]

theorem map_snd_stages (cx : Context) (id : ModuleId) (g : Graph) (members : List MemberOutline) :
    (stages cx id g members).map Prod.snd = members := by
  induction members generalizing g with
  | nil => rfl
  | cons m more ih => rw [stages, List.map_cons, ih]

theorem looseComments_read (members : List MemberOutline) :
    looseComments Member.looseTexts ⟨[], readMembers members, []⟩ = [] := by
  induction members with
  | nil => rfl
  | cons m more ih =>
    rw [readMembers]
    cases m <;> exact ih

/-! ## The unit of a class -/

/-- The phrases of bodies can stand in the bodies of members. -/
def Item.inBody (i : Item) : BodyStatement where
  tree := i.node
  statements := [i.read]
  reads := by
    obtain ⟨hkind, htakes⟩ := reads_item i
    rw [wrapped_node]
    exact Reader.readTree_of_takes (Reader.takes_inside hkind fun _ => htakes)

namespace ClassOutline

variable (c : ClassOutline) (package : Option String) (imports : List String)

/-- What needs no graph can be read off the members. -/
theorem flatMap_parts {β : Type} (f : MemberOutline → List β) :
    (c.parts package imports).flatMap (fun part => f part.2) = c.members.flatMap f := by
  rw [← map_snd_stages c.inner 0 (c.start package imports) c.members, List.flatMap_map]
  rfl

theorem path_start : (c.start package imports).path 0 = [Text.capitalize c.name] := by
  rw [Graph.path]
  rfl

/-- The header with what the members add. -/
theorem foldl_additions : ((c.parts package imports).flatMap fun part =>
      part.2.additions c.inner [Text.capitalize c.name] part.1).foldl Module.add c.header =
      { c.module package imports with constructors := c.written package imports } := by
  rw [Module.foldl_add_of_isEmpty ⟨rfl, rfl, rfl, rfl, rfl, rfl, rfl⟩]
  simp [List.filterMap_flatMap, MemberOutline.additions, MemberOutline.statics, List.filterMap_map,
    Function.comp_def, Addition.field?, Addition.staticField?, Addition.constant?,
    Addition.constructor?, Addition.method?, Addition.block?, Addition.sort?, module, written,
    flatMap_parts]

theorem classModule_read (static : Bool) :
    classModule .topLevel c.inner [] c.name static c.generics (c.superclass.map typeRef)
      (c.interfaces.map typeRef) ⟨[], readMembers c.members, []⟩ = c.header := by
  rw [classModule, looseComments_read, Option.map_map, List.map_map]
  rfl

theorem membersAdditions_parts :
    membersAdditions .ruby c.inner 0 (c.start package imports) (readMembers c.members) =
      (c.parts package imports).flatMap fun part =>
        part.2.additions c.inner [Text.capitalize c.name] part.1 := by
  have hid : 0 < (c.start package imports).size := Nat.zero_lt_one
  rw [membersAdditions_read rfl c.members hid, path_start]
  rfl

theorem get?_ofUnit (words : List Modifier) :
    (Graph.ofUnit .ruby (unitRead package imports [(words, c.type)])).get? 0 =
      some (c.module package imports) := by
  -- The module is kept as a variable: `get?_declareType` names it three times, and the header
  -- replaces all of them at once.
  have hclass : ∀ m, classModule .topLevel c.inner [] c.name (has words "static") c.generics
      (c.superclass.map typeRef) (c.interfaces.map typeRef) ⟨[], readMembers c.members, []⟩ = m →
      (Graph.ofUnit .ruby (unitRead package imports [(words, c.type)])).get? 0 =
        some ((membersAdditions .ruby c.inner 0 ((emptyUnit package imports).alloc m).2
          (readMembers c.members)).foldl Module.add m).ensureConstructor := by
    rintro m rfl
    exact get?_declareType .ruby .topLevel [] (emptyUnit package imports) c.name
      (has words "static") c.generics (c.superclass.map typeRef) (c.interfaces.map typeRef)
      ⟨[], readMembers c.members, []⟩
  rw [hclass _ (c.classModule_read (has words "static")), ← start, membersAdditions_parts,
    foldl_additions, Module.ensureConstructor_of_not_interface rfl]
  rfl

end ClassOutline

theorem ofTree_compilationUnit (package : Option String) (imports : List String)
    (words : List Modifier) (t : TypeOutline) :
    Graph.ofTree .ruby (compilationUnit package imports [typeDeclaration (wordsOf words) t.node]) =
      .ok (Graph.ofUnit .ruby (unitRead package imports [(words, t)])) := by
  have hread := readUnit_compilationUnit package imports [(words, t)]
  rw [List.map_singleton] at hread
  rw [Graph.ofTree, hread]
  rfl

/-- **The unit of a class is built**, and the module of the class is the one described. -/
theorem ofTree_class (package : Option String) (imports : List String) (words : List Modifier)
    (c : ClassOutline) :
    ∃ g, Graph.ofTree .ruby (compilationUnit package imports
        [typeDeclaration (wordsOf words) c.type.node]) = .ok g ∧
      g.get? 0 = some (c.module package imports) :=
  ⟨_, ofTree_compilationUnit package imports words c.type, c.get?_ofUnit package imports words⟩

/-- Members of every sort in turn: constants, a static block, a nested enum, a method whose body
declares a variable, fields, a constructor, and a static field. -/
def ledger : ClassOutline :=
  let static : Modifier := .keyword "static" (by decide)
  let final : Modifier := .keyword "final" (by decide)
  { name := "Ledger"
    generics := ["T"]
    superclass := some "Book"
    interfaces := ["Closeable"]
    members :=
      [.field [static, final] "int" ⟨"LIMIT", some two⟩ [⟨"STEP", none⟩],
       .staticBlock [(Item.sentence (.expr positive)).inBody],
       .nested [] (.enumType "Mode" [] [⟨"OPEN", [], none⟩] []),
       .method [.annotated "Override"] "void" "add"
         ⟨[("T", "entry"), ("int...", "sums")], by decide⟩
         (some [(Item.locals "int" ⟨"n", some two⟩ []).inBody]),
       .field [] "T" ⟨"last", none⟩ [⟨"sum", none⟩],
       .constructor [] "Ledger" ⟨[], by decide⟩ (some ⟨false, [two]⟩) [],
       .field [static] "int" ⟨"count", some two⟩ []] }

theorem ofTree_class_ledger : ∃ g m, Graph.ofTree .ruby (compilationUnit (some "shop") []
      [typeDeclaration ["public"] ledger.type.node]) = .ok g ∧ g.get? 0 = some m ∧
    m.constants.map (fun c => (c.name, c.value)) =
      [("LIMIT", "2"), ("STEP", "0"), ("OPEN", "Ledger::Mode::OPEN")] ∧
    m.methods.map Method.name = ["add"] ∧ m.fields.map Field.name = ["last", "sum"] ∧
    m.constructors.map Constructor.invocation = [.super "(2)"] ∧
    m.staticOrder = [.constant 0, .constant 1, .block 0, .constant 2, .field 0] := by
  obtain ⟨g, hg, hm⟩ := ofTree_class (some "shop") [] [.keyword "public" (by decide)] ledger
  refine ⟨g, _, hg, hm, ?_, ?_, ?_, ?_, ?_⟩ <;> decide +kernel

/-- A class with a field. -/
def counter : ClassOutline :=
  ⟨"Counter", [], none, [], [.field [] "int" ⟨"count", none⟩ []]⟩

/-- No member of the class is a constructor, but its module has one. -/
theorem constructors_counter_ne : ∃ g m, Graph.ofTree .ruby (compilationUnit none []
      [typeDeclaration [] counter.type.node]) = .ok g ∧ g.get? 0 = some m ∧
    counter.written none [] = [] ∧ m.constructors ≠ [] :=
  ⟨_, _, ofTree_compilationUnit none [] [] counter.type, counter.get?_ofUnit none [] [], rfl,
    List.cons_ne_nil _ _⟩

end Rubify.Phrase
