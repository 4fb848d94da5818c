import Rubify.Flow.Stmt
import Rubify.Java.Type

/-!
# Modules (§3)

A module is a class, an interface or an enum with everything it holds, in source order. Static
fields, constants and static blocks are kept in lists of their own; `staticOrder` tells how they
are interleaved in the source. Visibility, thrown exceptions, annotations and the bounds of type
parameters are read but no part of a module.
-/

namespace Rubify.Program

/-- The place of a module in its graph. -/
abbrev ModuleId := Nat

/-- How a type declaration relates to the code around it (the kinds of §3). -/
inductive ModuleKind
  /-- A class at top level. -/
  | topClass
  /-- An interface or annotation type at top level. -/
  | topInterface
  | enum
  /-- A member class that is not static. -/
  | memberClass
  | staticClass
  /-- An interface inside another type. -/
  | nestedInterface
  /-- A class inside a body, or the body of an enum constant. -/
  | innerClass
  deriving DecidableEq, Repr

/-- Whether a kind of module is an interface. -/
def ModuleKind.isInterface : ModuleKind → Bool
  | .topInterface | .nestedInterface => true
  | _ => false

/-- The method that a module or body stands in. -/
structure MethodOwner where
  name : String
  static : Bool
  deriving DecidableEq, Repr

/-- Where a module is declared. -/
structure Owner where
  module : Option ModuleId := none
  method : Option MethodOwner := none
  deriving DecidableEq, Repr

/-- A field; `init` is its initial value as text. -/
structure Field where
  name : String
  type : JavaType
  init : Option String
  comments : List String
  deriving DecidableEq, Repr

/-- The variable that holds a field of an instance. -/
def Field.instanceVariable (f : Field) : String := "@" ++ f.name

/-- The variable that holds a static field. -/
def Field.classVariable (f : Field) : String := "@@" ++ f.name

/-- What a field holds at first: its initial value, or the default of its type. -/
def Field.value (f : Field) : String := f.init.getD f.type.defaultValue

/-- A static final field, an interface constant, or (without type) an enum constant. -/
structure Constant where
  name : String
  type : Option JavaType
  value : String
  comments : List String
  deriving DecidableEq, Repr

/-- The name that a constant is bound to. -/
def Constant.rubyName (c : Constant) : String := Text.capitalize c.name

/-- A parameter. -/
structure Param where
  name : String
  type : JavaType
  variadic : Bool
  deriving DecidableEq, Repr

/-- The statements of a body; they can be taken out once (method body capture, §4.2). -/
structure Body where
  stmts : Option (List Flow.Stmt)

namespace Body

/-- A body whose statements are there. -/
def of (stmts : List Flow.Stmt) : Body := ⟨some stmts⟩

/-- The statements, and the body without them. -/
def take (b : Body) : Option (List Flow.Stmt) × Body := (b.stmts, ⟨none⟩)

/-- Whether the statements have been taken out. -/
def isTaken (b : Body) : Bool := b.stmts.isNone

end Body

/-- What a method does. -/
inductive MethodBody
  | pending (body : Body)
  | abstract
  | native
  /-- Lines that stand for no source. -/
  | synthesized (lines : List String)

/-- A method. -/
structure Method where
  name : String
  static : Bool
  synchronized : Bool
  params : List Param
  returns : JavaType
  generics : List String
  body : MethodBody
  /-- The types declared inside the body, in order. -/
  localClasses : List ModuleId
  comments : List String

/-- Whether a method is native. -/
def Method.isNative (m : Method) : Bool :=
  match m.body with
  | .native => true
  | _ => false

/-- Whether a method is abstract. -/
def Method.isAbstract (m : Method) : Bool :=
  match m.body with
  | .abstract => true
  | _ => false

/-- A method made of given lines. -/
def Method.ofLines (name : String) (static : Bool) (params : List Param) (returns : JavaType)
    (lines : List String) : Method :=
  ⟨name, static, false, params, returns, [], .synthesized lines, [], []⟩

/-- How a constructor begins; arguments are text with their parentheses. -/
inductive Invocation
  | none
  | super (arguments : String)
  | this (arguments : String)
  deriving DecidableEq, Repr

/-- A constructor. -/
structure Constructor where
  params : List Param
  generics : List String
  invocation : Invocation
  body : Body
  localClasses : List ModuleId
  /-- Whether the constructor stands for no source. -/
  synthesized : Bool
  comments : List String

/-- A constructor without statements that stands for no source. -/
def Constructor.ofInvocation (params : List Param) (invocation : Invocation) : Constructor :=
  ⟨params, [], invocation, .of [], [], true, []⟩

/-- A static member, by its place among those of its sort (static initializer blocks, §4.2). -/
inductive StaticMember
  | field (index : Nat)
  | constant (index : Nat)
  | block (index : Nat)
  deriving DecidableEq, Repr

/-- A static initializer block. -/
structure StaticBlock where
  body : Body
  localClasses : List ModuleId
  comments : List String

/-- A class, interface or enum. -/
structure Module where
  kind : ModuleKind
  name : String
  owner : Owner
  generics : List String := []
  superclass : Option JavaType := none
  interfaces : List JavaType := []
  fields : List Field := []
  staticFields : List Field := []
  constants : List Constant := []
  constructors : List Constructor := []
  methods : List Method := []
  staticBlocks : List StaticBlock := []
  staticOrder : List StaticMember := []
  /-- Comments in front of the declaration. -/
  comments : List String := []
  /-- Comments inside the body that belong to no member. -/
  bodyComments : List String := []

namespace Module

/-- Whether the module is an interface. -/
def isInterface (m : Module) : Bool := m.kind.isInterface

/-- The name that the module is defined under. A class inside a body is defined next to its method
and carries the method's name; the body of an enum constant must not clash with the constant. -/
def rubyName (m : Module) : String :=
  match m.kind, m.owner.method with
  | .innerClass, some method => Text.capitalize m.name ++ "_" ++ method.name
  | .innerClass, none => Text.capitalize m.name ++ "_Body"
  | _, _ => Text.capitalize m.name

/-- The module with one more field. -/
def addField (m : Module) (f : Field) : Module :=
  { m with fields := m.fields ++ [f] }

/-- The module with one more static field. -/
def addStaticField (m : Module) (f : Field) : Module :=
  { m with
    staticOrder := m.staticOrder ++ [.field m.staticFields.length]
    staticFields := m.staticFields ++ [f] }

/-- The module with one more constant. -/
def addConstant (m : Module) (c : Constant) : Module :=
  { m with
    staticOrder := m.staticOrder ++ [.constant m.constants.length]
    constants := m.constants ++ [c] }

/-- The module with one more static block. -/
def addStaticBlock (m : Module) (b : StaticBlock) : Module :=
  { m with
    staticOrder := m.staticOrder ++ [.block m.staticBlocks.length]
    staticBlocks := m.staticBlocks ++ [b] }

/-- The module with one more method. -/
def addMethod (m : Module) (method : Method) : Module :=
  { m with methods := m.methods ++ [method] }

/-- The module with one more constructor. -/
def addConstructor (m : Module) (c : Constructor) : Module :=
  { m with constructors := m.constructors ++ [c] }

/-- The first method of a name. -/
def method? (m : Module) (name : String) : Option Method :=
  m.methods.find? (·.name = name)

/-- The first constant of a name. -/
def constant? (m : Module) (name : String) : Option Constant :=
  m.constants.find? (·.name = name)

end Module

end Rubify.Program
