import Rubify.Flow.Normalize
import Rubify.Program.Graph
import Rubify.Program.Init
import Rubify.Ruby.Stmt

/-!
# Writing modules (§2, §4.2)

A module is written as its comments, its header, and the sections of its body: mixins, loose
comments, nested modules, the constructor, the methods, and the static members in source order. Empty
lines stand between the sections. The statements of a body are taken out when they are written, so
what is left of a graph is one without statements, and a body that was written before is an error.

Ruby has one `initialize` for each class. Several constructors share it and are told apart by the
number of arguments, so two that take the same number cannot both be written. Where the body of a
constructor goes depends on the others, so it is written out of line and spliced in.
-/

namespace Rubify.Ruby

open Program

/-- How modules are written. -/
structure Options where
  closure : Flow.ClosureMode := .compatible
  /-- Whether comments are written. -/
  comments : Bool := true

/-- Why a module cannot be written. -/
inductive RenderError
  | flow (cause : Flow.FlowError)
  | unsupported (construct : String)
  /-- The statements of a body are gone. -/
  | bodyTaken (owner : String)
  deriving DecidableEq, Repr

/-- The report of an error. -/
def RenderError.message : RenderError → String
  | .flow cause => cause.message
  | .unsupported construct => "unsupported construct: " ++ construct
  | .bodyTaken owner => "body of " ++ owner ++ " was already rendered"

/-! ## Bodies -/

/-- The normalised statements of a body, and the body without them. -/
def takeBody (o : Options) (owner : String) (b : Body) :
    Except RenderError (List Flow.Stmt × Body) :=
  match b.take with
  | (none, _) => .error (.bodyTaken owner)
  | (some stmts, rest) =>
    match Flow.normalize o.closure stmts with
    | .ok stmts => .ok (stmts, rest)
    | .error cause => .error (.flow cause)

/-- Takes something out of each element of a list. -/
def takeEach {α β ε : Type} (f : α → Except ε (β × α)) : List α → Except ε (List β × List α)
  | [] => .ok ([], [])
  | x :: xs => do
    let (y, x) ← f x
    let (ys, xs) ← takeEach f xs
    return (y :: ys, x :: xs)

/-! ## Parameters -/

/-- A parameter in a list of parameters or of assigned variables. -/
def paramText (p : Param) : String :=
  if p.variadic then "*" ++ p.name else p.name

/-- The parameters of a method, nothing if there are none. -/
def paramsText (params : List Param) : String :=
  if params.isEmpty then "" else "(" ++ ", ".intercalate (params.map paramText) ++ ")"

/-- Assigns the elements of `args` to parameters. -/
def bindLayout (params : List Param) : List Layout :=
  match params with
  | [] => []
  | [p] => [.line (p.name ++ (if p.variadic then " = args" else " = args[0]"))]
  | _ => [.line (", ".intercalate (params.map paramText) ++ " = args")]

/-! ## Methods -/

/-- The lines inside a method with statements. -/
def statementsLayout (o : Options) (m : Method) (stmts : List Flow.Stmt) : List Layout :=
  if m.synchronized then
    [.line "synchronized(self) do", .indented (bodyLayout o.comments stmts), .line "end"]
  else bodyLayout o.comments stmts

/-- The lines of a method around those of its body. -/
def methodFrame (o : Options) (m : Method) (lines : List Layout) : List Layout :=
  let receiver := if m.static then "self." else ""
  commentLayout o.comments m.comments ++
    [.line ("def " ++ receiver ++ m.name ++ paramsText m.params), .indented lines, .line "end"]

/-- The lines inside a method, and its body without statements. -/
def takeMethodBody (o : Options) (owner : String) (m : Method) :
    Except RenderError (List Layout × MethodBody) :=
  match m.body with
  | .pending body => do
    let (stmts, rest) ← takeBody o owner body
    return (statementsLayout o m stmts, .pending rest)
  | .abstract => return ([.line "raise NotImplementedError"], .abstract)
  | .native =>
    return ([.line ("raise NotImplementedError, \"native method " ++ m.name ++ "\"")], .native)
  | .synthesized lines => return (lines.map .line, .synthesized lines)

/-- The lines of a method, and the method without its body. -/
def takeMethod (o : Options) (owner : String) (m : Method) :
    Except RenderError (List Layout × Method) := do
  let (lines, body) ← takeMethodBody o (owner ++ "#" ++ m.name) m
  return (methodFrame o m lines, { m with body })

/-- The lines of the methods, and the module without their bodies. -/
def takeMethods (o : Options) (m : Module) : Except RenderError (List (List Layout) × Module) := do
  let (lines, methods) ← takeEach (takeMethod o m.name) m.methods
  return (lines, { m with methods })

/-! ## Constructors -/

/-- The field set-up of a constructor followed by its statements. -/
def constructorBodyLayout (o : Options) (m : Module) (c : Constructor) (stmts : List Flow.Stmt) :
    List Layout :=
  (m.initPlan c.invocation).map (fun step => .line step.line) ++ bodyLayout o.comments stmts

/-- A constructor with the lines of its body. -/
abbrev Overload := Constructor × List Layout

/-- Constructors that share one `initialize`: those that take one number of arguments, and the one
that takes any further number. -/
structure Overloads where
  fixed : List Overload := []
  variadic : Option Overload := none

/-- Whether the last parameter of a constructor is variadic. -/
def isVariadic (c : Constructor) : Bool :=
  c.params.getLast?.any Param.variadic

/-- Adds a constructor of the class `name`, unless there is one that takes as many arguments. -/
def Overloads.add (name : String) (s : Overloads) (c : Overload) : Except RenderError Overloads :=
  if isVariadic c.1 then
    if s.variadic.isSome then throw (.unsupported ("more than one variadic constructor in " ++ name))
    else return { s with variadic := some c }
  else if s.fixed.any fun d => d.1.params.length = c.1.params.length then
    throw (.unsupported ("constructors of " ++ name ++ " overloaded on parameter types"))
  else return { s with fixed := s.fixed ++ [c] }

/-- The lines of a constructor inside its `when` or `else`. -/
def overloadLayout (c : Overload) : Layout :=
  .indented (bindLayout c.1.params ++ [.spliced c.2])

/-- The lines of a constructor that is the only one. -/
def singleLayout (o : Options) (c : Overload) : List Layout :=
  commentLayout o.comments c.1.comments ++
    [.line ("def initialize" ++ paramsText c.1.params), .indented [.spliced c.2], .line "end"]

/-- The lines for any number of arguments that no `when` names. -/
def elseLayoutOf (variadic : Option Overload) : Layout :=
  match variadic with
  | some c => overloadLayout c
  | none => .indented
      [.line "raise ArgumentError, \"wrong number of arguments (given #\x7bargs.size\x7d)\""]

/-- The lines of constructors that share one `initialize`. -/
def dispatchLayout (o : Options) (constructors : List Constructor) (s : Overloads) : List Layout :=
  let whens := s.fixed.flatMap fun c =>
    [Layout.line ("when " ++ toString c.1.params.length), overloadLayout c]
  (constructors.flatMap fun c => commentLayout o.comments c.comments) ++
    [.line "def initialize(*args)",
     .indented ([.line "case args.size"] ++ whens ++
      [.line "else", elseLayoutOf s.variadic, .line "end"]),
     .line "end"]

/-- The lines of constructors of the class `name`, given those of their bodies in order. -/
def overloadsLayout (o : Options) (name : String) (constructors : List Constructor)
    (bodies : List (List Layout)) : Except RenderError (List Layout) :=
  match constructors, bodies with
  | [c], [body] => return singleLayout o (c, body)
  | _, _ => do
    let s ← (constructors.zip bodies).foldlM (Overloads.add name) {}
    return dispatchLayout o constructors s

/-- The statements of a constructor of the class `name`, and the constructor without them. -/
def takeConstructor (o : Options) (name : String) (c : Constructor) :
    Except RenderError (List Flow.Stmt × Constructor) := do
  let (stmts, rest) ← takeBody o (name ++ "#initialize") c.body
  return (stmts, { c with body := rest })

/-- The section of the constructors unless there are none, and the module without their bodies. -/
def takeConstructors (o : Options) (m : Module) :
    Except RenderError (List (List Layout) × Module) :=
  if m.constructors.isEmpty then return ([], m)
  else do
    let (stmts, constructors) ← takeEach (takeConstructor o m.name) m.constructors
    let bodies := List.zipWith (constructorBodyLayout o m) m.constructors stmts
    let lines ← overloadsLayout o m.name m.constructors bodies
    return ([lines], { m with constructors })

/-! ## Static members -/

/-- The lines of a static member, and the module without its body if it is a block. An index without
member has no lines. -/
def takeStatic (o : Options) (m : Module) : StaticMember → Except RenderError (List Layout × Module)
  | .field index =>
    match m.staticFields[index]? with
    | none => return ([], m)
    | some f =>
      return (commentLayout o.comments f.comments ++ [.line (f.classVariable ++ " = " ++ f.value)], m)
  | .constant index =>
    match m.constants[index]? with
    | none => return ([], m)
    | some c =>
      return (commentLayout o.comments c.comments ++ [.line (c.rubyName ++ " = " ++ c.value)], m)
  | .block index =>
    match m.staticBlocks[index]? with
    | none => return ([], m)
    | some b => do
      let (stmts, rest) ← takeBody o (m.name ++ "#static") b.body
      return (commentLayout o.comments b.comments ++ bodyLayout o.comments stmts,
        { m with staticBlocks := m.staticBlocks.set index { b with body := rest } })

/-- The lines of static members one after another. -/
def takeStaticsIn (o : Options) (m : Module) :
    List StaticMember → Except RenderError (List Layout × Module)
  | [] => return ([], m)
  | s :: rest => do
    let (lines, m) ← takeStatic o m s
    let (more, m) ← takeStaticsIn o m rest
    return (lines ++ more, m)

/-- The section of the static members in source order unless there are none, and the module without
the bodies of its blocks. -/
def takeStatics (o : Options) (m : Module) : Except RenderError (List (List Layout) × Module) :=
  if m.staticOrder.isEmpty then return ([], m)
  else do
    let (lines, m) ← takeStaticsIn o m m.staticOrder
    return ([lines], m)

/-! ## Modules -/

/-- The line that opens a module. -/
def headerLine (m : Module) : String :=
  if m.isInterface then "module " ++ m.rubyName
  else
    match m.superclass with
    | some t => "class " ++ m.rubyName ++ " < " ++ t.reference
    | none => "class " ++ m.rubyName

/-- A section, unless it has nothing to hold. -/
def sectionIf (present : Bool) (lines : List Layout) : List (List Layout) :=
  if present then [lines] else []

/-- Sections with empty lines between them. -/
def joinSections (sections : List (List Layout)) : List Layout :=
  (sections.intersperse [.gap]).flatten

/-- A module made of its sections. -/
def frameLayout (o : Options) (m : Module) (sections : List (List Layout)) : List Layout :=
  let includes := m.interfaces.map fun t => Layout.line ("include " ++ t.reference)
  let first :=
    sectionIf (!m.interfaces.isEmpty) includes ++
    sectionIf (o.comments && !m.bodyComments.isEmpty) (commentLayout o.comments m.bodyComments)
  commentLayout o.comments m.comments ++
    [.line (headerLine m), .indented (joinSections (first ++ sections)), .line "end"]

/-- The lines of a module, given those of the modules inside it, and the module without bodies. -/
def takeModule (o : Options) (nested : List (List Layout)) (m : Module) :
    Except RenderError (List Layout × Module) := do
  let (constructors, m) ← takeConstructors o m
  let (methods, m) ← takeMethods o m
  let (statics, m) ← takeStatics o m
  return (frameLayout o m (nested ++ constructors ++ methods ++ statics), m)

/-- The lines of the module `id` and everything in it. The bodies are taken out of the graph that is
the state; what is nested where does not change on the way. -/
def takeGraph (o : Options) (links : Links) (id : ModuleId) :
    StateT Graph (Except RenderError) (List Layout) := do
  let nested ← (links.nested id).attach.mapM fun ⟨child, h⟩ =>
    have := Links.lt_of_mem_nested h
    takeGraph o links child
  fun g =>
    match g.get? id with
    | none => return ([], g)
    | some m => do
      let (lines, m) ← takeModule o nested m
      return (lines, g.modify id fun _ => m)
termination_by links.size - id
decreasing_by simp only [ModuleId] at *; omega

/-- Lines inside the modules of a package. -/
def packageLayout (lines : List Layout) : List String → List Layout
  | [] => lines
  | segment :: rest =>
    [.line ("module " ++ Text.capitalize segment), .indented (packageLayout lines rest),
      .line "end"]

/-- The lines of a unit around those of its modules: its comments, its imports as comments, and the
modules inside those of the package. -/
def unitFrame (o : Options) (g : Graph) (roots : List (List Layout)) : List Layout :=
  let imports := g.imports.map fun i => Layout.line ("# " ++ i.display)
  commentLayout o.comments g.comments ++
    (if imports.isEmpty then [] else .gap :: imports) ++
    [.gap] ++ packageLayout (joinSections roots) g.package

/-- The lines of a compilation unit, and its graph without bodies. -/
def takeUnit (o : Options) (g : Graph) : Except RenderError (List Layout × Graph) := do
  let (roots, rest) ← (g.roots.mapM (takeGraph o g.links)) g
  return (unitFrame o g roots, rest)

end Rubify.Ruby
