import Rubify.Grammar.Expression
import Rubify.Grammar.Type
import Rubify.Program.Context
import Rubify.Program.Graph
import Rubify.Ruby.Expr

/-!
# Declaring modules (§4.2)

Everything that was read becomes modules of a graph. Modules are numbered in source order, and each
member goes to the module around it:

* a static final field is a constant, another static field a class variable; the comments in front
  of several fields go to the first one;
* a class with fields and without constructor gets one, so that the fields are set up;
* a type inside a body is a module of its own, known by its name to the rest of the body;
* an enum constant is an instance that knows its name, and is known in the module around the enum
  too; one with a body is an instance of a subclass.

Declaring never fails: what cannot be expressed was refused when it was read.
-/

namespace Rubify.Program

open Grammar (Dialect)
open Syntax

/-! ## Expressions, types and variables -/

/-- The text of an expression. -/
def exprText (d : Dialect) (cx : Context) (e : Expr) : String :=
  match d with
  | .ruby => Ruby.exprText cx.localType? e
  | .plain => " ".intercalate e.tokens

/-- An expression, read and written in one go. -/
def Context.expression {n : Node} (cx : Context) : Reader n String := do
  let tokens ← Reader.inside ["expression"] fun c _ => Grammar.tokensIn c
  match Ruby.render cx.localType? tokens with
  | .ok text => return text
  | .error construct => Reader.unsupported construct

/-- Reads a tree as a type of the context; also gives the comments in it. -/
def Context.readType (cx : Context) (tree : Node) :
    Except BuildError (JavaType × List String) :=
  (Reader.readTree tree Grammar.type).map fun read => (cx.resolve read.1, read.2)

/-- The text of an argument list; see `Ruby.argumentsText`. -/
def argumentsText (d : Dialect) (arguments : List String) (explicit : Bool) : String :=
  match d with
  | .ruby => Ruby.argumentsText arguments explicit
  | .plain =>
    if arguments.isEmpty && !explicit then "" else "(" ++ "; ".intercalate arguments ++ ")"

mutual

/-- The text of an initial value. -/
def initializerText (d : Dialect) (cx : Context) : Initializer → String
  | .value e => exprText d cx e
  | .array elements => "[" ++ ", ".intercalate (initializerTexts d cx elements) ++ "]"

/-- The texts of initial values. -/
def initializerTexts (d : Dialect) (cx : Context) : List Initializer → List String
  | [] => []
  | i :: rest => initializerText d cx i :: initializerTexts d cx rest

end

/-- The field that a declarator describes. -/
def fieldOf (d : Dialect) (cx : Context) (comments : List String) (v : Declarator) : Field :=
  ⟨v.name, cx.resolve v.type, v.init.map (initializerText d cx), comments⟩

/-- The constant that a declarator describes. -/
def constantOf (d : Dialect) (cx : Context) (comments : List String) (v : Declarator) : Constant :=
  let f := fieldOf d cx comments v
  ⟨f.name, some f.type, f.value, f.comments⟩

/-- Describes declarators one by one; the first one has the comments. -/
def describe {α : Type} (f : List String → Declarator → α) (comments : List String) :
    List Declarator → List α
  | [] => []
  | v :: rest => f comments v :: rest.map (f [])

/-- A parameter with its type. -/
def paramOf (cx : Context) (p : Parameter) : Param :=
  ⟨p.name, cx.resolve p.type, p.variadic⟩

/-- The assignment that a local variable begins with. -/
def localVariable (d : Dialect) (cx : Context) (v : Declarator) : Flow.Stmt :=
  .other (v.name ++ " = " ++ (fieldOf d cx [] v).value)

/-- How a constructor begins. -/
def invocationOf (d : Dialect) (cx : Context) : Option Syntax.Invocation → Invocation
  | none => .none
  | some i =>
    let arguments := argumentsText d (i.arguments.map (exprText d cx)) true
    if i.toThis then .this arguments else .super arguments

/-! ## Members -/

/-- The module with fields, static fields or constants. -/
def Module.addFields (m : Module) (d : Dialect) (cx : Context) (comments : List String)
    (static final : Bool) (declarators : List Declarator) : Module :=
  if static && final then
    (describe (constantOf d cx) comments declarators).foldl addConstant m
  else if static then
    (describe (fieldOf d cx) comments declarators).foldl addStaticField m
  else
    (describe (fieldOf d cx) comments declarators).foldl addField m

/-- A method without statements. -/
def methodOf (cx : Context) (s : Signature) (static synchronized : Bool) (body : MethodBody) :
    Method :=
  { name := s.name
    static
    synchronized
    params := s.params.map (paramOf cx)
    returns := cx.resolve s.returns
    generics := s.generics
    body
    localClasses := []
    comments := s.comments }

/-- A class with fields needs a constructor (field initialization, §4.2). -/
def Module.ensureConstructor (m : Module) : Module :=
  if m.isInterface || !m.constructors.isEmpty || m.fields.isEmpty then m
  else m.addConstructor (.ofInvocation [] .none)

/-- The comments of the body of a type that belong to no member; `loose` gives those that a member
leaves. -/
def looseComments {μ : Type} (loose : μ → List String) (body : TypeBody μ) : List String :=
  body.opening ++ body.members.flatMap loose ++ body.closing

/-! ## Enums -/

/-- The methods of every enum, given the names of its constants (enum desugaring, §4.2). -/
def enumMethods (constants : List String) : List Method :=
  [.ofLines "set_value_name" false [⟨"name", .string, false⟩] .void ["@value_name = name", "self"],
   .ofLines "to_s" false [] .string ["@value_name"],
   .ofLines "values" true [] (.array .object) ["[" ++ ", ".intercalate constants ++ "]"]]

/-- The subclass of an enum that holds the members of a constant's body. Its constructor hands all
arguments on to the enum's. -/
def constantBody (d : Dialect) (g : Graph) (enum : ModuleId) (name : String)
    (body : TypeBody Member) : Module :=
  { kind := .innerClass
    name
    owner := ⟨some enum, none⟩
    superclass := some (g.javaType enum)
    constructors := [.ofInvocation [⟨"args", .array .object, true⟩]
      (.super (argumentsText d ["*args"] true))]
    bodyComments := looseComments Member.looseTexts body }

/-- The constant `name` of an enum: an instance of the class `receiver`. -/
def enumConstant (d : Dialect) (receiver name : String) (arguments comments : List String) :
    Constant :=
  { name
    type := none
    value := receiver ++ ".new" ++ argumentsText d arguments false ++ ".set_value_name(\"" ++
      name ++ "\")"
    comments }

/-- The name of a module, empty if there is none. -/
def Graph.rubyName (g : Graph) (id : ModuleId) : String :=
  ((g.get? id).map Module.rubyName).getD ""

/-- Adds a constant to an enum; `outer`, the module around the enum, gets a constant that refers to
it (enum desugaring, §4.2). -/
def Graph.addEnumConstant (g : Graph) (outer : Option ModuleId) (enum : ModuleId) (c : Constant) :
    Graph :=
  let reference : Constant := ⟨c.name, none, "::".intercalate (g.path enum ++ [c.rubyName]), []⟩
  let g := match outer with
    | some id => g.modify id (·.addConstant reference)
    | none => g
  g.modify enum (·.addConstant c)

/-! ## Declarations -/

/-- What declaring the statements of a body changes: the graph, the types known to the rest of the
body, and the modules of these types. -/
structure BodyState where
  graph : Graph
  cx : Context
  classes : List ModuleId := []

mutual

/-- Declares a type; gives its module. -/
def declareType (d : Dialect) (cx : Context) (comments : List String) (g : Graph) :
    TypeDecl → ModuleId × Graph
  | .classType name static generics superclass interfaces ⟨opening, members, closing⟩ =>
    let inner := cx.enterModule g.size generics
    let (id, g) := g.alloc
      { kind := cx.kindOf .classType static
        name
        owner := cx.owner
        generics
        superclass := superclass.map inner.resolve
        interfaces := interfaces.map inner.resolve
        comments
        bodyComments := looseComments Member.looseTexts ⟨opening, members, closing⟩ }
    let g := declareMembers d inner id g members
    (id, g.modify id Module.ensureConstructor)
  | .enumType name interfaces constants ⟨opening, members, closing⟩ =>
    let inner := cx.enterModule g.size []
    let (id, g) := g.alloc
      { kind := .enum
        name
        owner := cx.owner
        interfaces := interfaces.map inner.resolve
        comments
        bodyComments := looseComments Member.looseTexts ⟨opening, members, closing⟩ }
    let g := declareConstants d cx.module inner id g constants
    let g := declareMembers d inner id g members
    let names := constants.map fun c => Text.capitalize c.name
    let g := g.modify id fun m => (enumMethods names).foldl Module.addMethod m
    (id, g.modify id Module.ensureConstructor)
  | .interfaceType name generics parents ⟨opening, members, closing⟩ =>
    let inner := cx.enterModule g.size generics
    let (id, g) := g.alloc
      { kind := cx.kindOf .interfaceType false
        name
        owner := cx.owner
        generics
        interfaces := parents.map inner.resolve
        comments
        bodyComments := looseComments InterfaceMember.looseTexts ⟨opening, members, closing⟩ }
    (id, declareInterfaceMembers d inner id g members)
  | .annotationType name bodyComments =>
    g.alloc
      { kind := cx.kindOf .interfaceType false, name, owner := cx.owner, comments, bodyComments }

/-- Declares the members of the class or enum `id`. -/
def declareMembers (d : Dialect) (cx : Context) (id : ModuleId) (g : Graph) : List Member → Graph
  | [] => g
  | m :: rest => declareMembers d cx id (declareMember d cx id g m) rest

/-- Declares a member of the class or enum `id`. -/
def declareMember (d : Dialect) (cx : Context) (id : ModuleId) (g : Graph) : Member → Graph
  | .empty _ => g
  | .initializer comments body =>
    let (stmts, s) := lowerAll d ⟨g, cx.enterMethod "static" true [], []⟩ body
    s.graph.modify id (·.addStaticBlock ⟨.of stmts, s.classes, comments⟩)
  | .fields comments static final declarators =>
    g.modify id (·.addFields d cx comments static final declarators)
  | .method signature static synchronized body =>
    let inner := cx.enterMethod signature.name static signature.generics
    let (body, s) := lowerMethodBody d ⟨g, inner, []⟩ body
    let method := methodOf inner signature static synchronized body
    s.graph.modify id (·.addMethod { method with localClasses := s.classes })
  | .constructor comments generics params invocation body =>
    let inner := cx.enterMethod "initialize" false generics
    let (stmts, s) := lowerAll d ⟨g, inner, []⟩ body
    s.graph.modify id (·.addConstructor
      { params := params.map (paramOf inner)
        generics
        invocation := invocationOf d inner invocation
        body := .of stmts
        localClasses := s.classes
        synthesized := false
        comments })
  | .type comments decl => (declareType d cx comments g decl).2

/-- Declares the constants of the enum `id`, which stands in the module `outer`. -/
def declareConstants (d : Dialect) (outer : Option ModuleId) (cx : Context) (id : ModuleId)
    (g : Graph) : List (EnumConstant Member) → Graph
  | [] => g
  | ⟨comments, name, arguments, body⟩ :: rest =>
    let (receiver, g) := declareConstantBody d cx id name g body
    let c := enumConstant d (g.rubyName receiver) name (arguments.map (exprText d cx)) comments
    declareConstants d outer cx id (g.addEnumConstant outer id c) rest

/-- Declares the body of a constant of the enum `id`; gives the class of the constant. -/
def declareConstantBody (d : Dialect) (cx : Context) (id : ModuleId) (name : String) (g : Graph) :
    Option (TypeBody Member) → ModuleId × Graph
  | none => (id, g)
  | some ⟨opening, members, closing⟩ =>
    let (body, g) := g.alloc (constantBody d g id name ⟨opening, members, closing⟩)
    (body, declareMembers d (cx.enterModule body []) body g members)

/-- Declares the members of the interface `id`. -/
def declareInterfaceMembers (d : Dialect) (cx : Context) (id : ModuleId) (g : Graph) :
    List InterfaceMember → Graph
  | [] => g
  | m :: rest => declareInterfaceMembers d cx id (declareInterfaceMember d cx id g m) rest

/-- Declares a member of the interface `id`. -/
def declareInterfaceMember (d : Dialect) (cx : Context) (id : ModuleId) (g : Graph) :
    InterfaceMember → Graph
  | .empty _ => g
  | .constants comments declarators =>
    g.modify id fun m => (describe (constantOf d cx) comments declarators).foldl .addConstant m
  | .method signature =>
    let inner := cx.enterMethod signature.name false signature.generics
    g.modify id (·.addMethod (methodOf inner signature false false .abstract))
  | .type comments decl => (declareType d cx comments g decl).2

/-- The body of a method (method body capture, §4.2). -/
def lowerMethodBody (d : Dialect) (s : BodyState) :
    Syntax.MethodBody Statement → MethodBody × BodyState
  | .block body =>
    let (stmts, s) := lowerAll d s body
    (.pending (.of stmts), s)
  | .abstract => (.abstract, s)
  | .native => (.native, s)

/-- The statements of a body. -/
def lowerAll (d : Dialect) (s : BodyState) : List Statement → List Flow.Stmt × BodyState
  | [] => ([], s)
  | st :: rest =>
    let (stmts, s) := lower d s st
    let (more, s) := lowerAll d s rest
    (stmts ++ more, s)

/-- What one statement stands for. -/
def lower (d : Dialect) (s : BodyState) : Statement → List Flow.Stmt × BodyState
  | .comment text => ([.comment text], s)
  | .variables declarators => (declarators.map (localVariable d s.cx), s)
  | .type comments decl =>
    let (id, g) := declareType d s.cx comments s.graph decl
    let name := ((g.get? id).map Module.name).getD ""
    ([], ⟨g, s.cx.declareLocal name (g.path id), s.classes ++ [id]⟩)
  | .expr e => ([.other (exprText d s.cx e)], s)
  | .block body =>
    let (stmts, s) := lowerAll d s body
    ([.block stmts], s)
  | .ifThen condition thenBranch elseBranch =>
    let condition := exprText d s.cx condition
    let (thenBranch, s) := lowerAll d s thenBranch
    let (elseBranch, s) := lowerElse d s elseBranch
    ([.ifThen condition thenBranch elseBranch], s)
  | .loop condition body =>
    let condition := exprText d s.cx condition
    let (body, s) := lowerAll d s body
    ([.loop condition body], s)
  | .labeled label body =>
    let (body, s) := lowerAll d s body
    ([.labeled label body], s)
  | .switch value groups =>
    let value := exprText d s.cx value
    let (branches, s) := lowerGroups d s groups
    ([.case value branches], s)
  | .leave label => ([.leave label], s)
  | .return value => ([.return (value.map (exprText d s.cx))], s)
  | .throw value => ([.raise (exprText d s.cx value)], s)
  | .invoke arguments =>
    let texts := arguments.map (exprText d s.cx)
    let name := (s.cx.method.map MethodOwner.name).getD ""
    ([.other (name ++ argumentsText d texts true ++ argumentsText d texts false)], s)

/-- An else branch. -/
def lowerElse (d : Dialect) (s : BodyState) :
    Option (List Statement) → Option (List Flow.Stmt) × BodyState
  | none => (none, s)
  | some body =>
    let (stmts, s) := lowerAll d s body
    (some stmts, s)

/-- The groups of a switch, all open. -/
def lowerGroups (d : Dialect) (s : BodyState) :
    List (SwitchGroup Statement) → List (Flow.Branch Flow.Stmt) × BodyState
  | [] => ([], s)
  | ⟨labels, body⟩ :: rest =>
    let labels := labels.map fun
      | some e => Flow.CaseLabel.value (exprText d s.cx e)
      | none => .otherwise
    let (stmts, s) := lowerAll d s body
    let (branches, s) := lowerGroups d s rest
    (⟨labels, false, stmts⟩ :: branches, s)

end

/-- Declares the types of a unit one after another. -/
def declareTypes (d : Dialect) (g : Graph) : List (List String × TypeDecl) → Graph
  | [] => g
  | (comments, decl) :: rest => declareTypes d (declareType d .topLevel comments g decl).2 rest

/-- The graph of a compilation unit. -/
def Graph.ofUnit (d : Dialect) (u : CompilationUnit) : Graph :=
  declareTypes d
    { package := (u.package.map Text.segments).getD []
      imports := u.imports
      comments := u.comments ++ u.trailing }
    u.types

end Rubify.Program
