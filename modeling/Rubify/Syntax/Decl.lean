import Rubify.Java.Type
import Rubify.Syntax.Expr

/-!
# Declarations and statements as read

What a compilation unit says, before names are resolved and modules are made: types with their type
arguments erased, members and statements in source order, and with each the comments that stand in
front of it. Annotations are not kept.
-/

namespace Rubify.Syntax

/-! ## Types, variables and parameters -/

/-- A type without its array dimensions. -/
inductive TypeName
  | primitive (p : Primitive)
  /-- The segments of a dotted name. -/
  | named (segments : List String)
  | void
  deriving DecidableEq, Repr

/-- A type: a name and how many array dimensions it has. -/
structure TypeRef where
  base : TypeName
  dims : Nat := 0
  deriving DecidableEq, Repr

/-- The type with further array dimensions. -/
def TypeRef.addDims (t : TypeRef) (dims : Nat) : TypeRef :=
  { t with dims := t.dims + dims }

/-- The initial value of a variable. -/
inductive Initializer
  | value (e : Expr)
  | array (elements : List Initializer)

/-- A variable, field or constant. -/
structure Declarator where
  name : String
  type : TypeRef
  init : Option Initializer

/-- A parameter; the type of a variadic one is the array of its arguments. -/
structure Parameter where
  name : String
  type : TypeRef
  variadic : Bool

/-- What a method and its callers agree on, with the comments in front of it. -/
structure Signature where
  comments : List String
  name : String
  generics : List String
  params : List Parameter
  returns : TypeRef

/-- A call of another constructor that opens a constructor. -/
structure Invocation where
  /-- Whether a constructor of the same class is called, and not one of the superclass. -/
  toThis : Bool
  arguments : List Expr

/-! ## Bodies -/

/-- The body of a type: comments behind the opening brace, members, and comments in front of the
closing brace. -/
structure TypeBody (μ : Type) where
  opening : List String
  members : List μ
  closing : List String

/-- The body of a method. -/
inductive MethodBody (σ : Type)
  | block (body : List σ)
  | abstract
  | native

/-- A group of a switch; a label without expression is `default`. -/
structure SwitchGroup (σ : Type) where
  labels : List (Option Expr)
  body : List σ

/-- A constant of an enum. -/
structure EnumConstant (μ : Type) where
  comments : List String
  name : String
  arguments : List Expr
  body : Option (TypeBody μ)

mutual

/-- A statement. -/
inductive Statement
  | comment (text : String)
  | variables (declarators : List Declarator)
  /-- A type declared inside the body. -/
  | type (comments : List String) (decl : TypeDecl)
  | expr (e : Expr)
  | block (body : List Statement)
  | ifThen (condition : Expr) (thenBranch : List Statement) (elseBranch : Option (List Statement))
  | loop (condition : Expr) (body : List Statement)
  | labeled (label : String) (body : List Statement)
  | switch (value : Expr) (groups : List (SwitchGroup Statement))
  | leave (label : Option String)
  | return (value : Option Expr)
  | throw (value : Expr)
  /-- A bare argument list: a call of the method around it. -/
  | invoke (arguments : List Expr)

/-- A type declaration. -/
inductive TypeDecl
  | classType (name : String) (static : Bool) (generics : List String) (superclass : Option TypeRef)
      (interfaces : List TypeRef) (body : TypeBody Member)
  | enumType (name : String) (interfaces : List TypeRef) (constants : List (EnumConstant Member))
      (body : TypeBody Member)
  | interfaceType (name : String) (generics : List String) (parents : List TypeRef)
      (body : TypeBody InterfaceMember)
  /-- An annotation type; its elements are not kept, only the comments among them. -/
  | annotationType (name : String) (comments : List String)

/-- A member of a class or an enum. -/
inductive Member
  /-- A lone semicolon. -/
  | empty (comments : List String)
  /-- A static initializer block. -/
  | initializer (comments : List String) (body : List Statement)
  | fields (comments : List String) (static final : Bool) (declarators : List Declarator)
  | method (signature : Signature) (static synchronized : Bool) (body : MethodBody Statement)
  | constructor (comments : List String) (generics : List String) (params : List Parameter)
      (invocation : Option Invocation) (body : List Statement)
  | type (comments : List String) (decl : TypeDecl)

/-- A member of an interface. -/
inductive InterfaceMember
  /-- A lone semicolon. -/
  | empty (comments : List String)
  | constants (comments : List String) (declarators : List Declarator)
  | method (signature : Signature)
  | type (comments : List String) (decl : TypeDecl)

end

/-- The comments that a member leaves to the body around it: those at a lone semicolon. -/
def Member.looseTexts : Member → List String
  | .empty comments => comments
  | _ => []

/-- The comments that a member of an interface leaves to the body around it. -/
def InterfaceMember.looseTexts : InterfaceMember → List String
  | .empty comments => comments
  | _ => []

/-! ## Compilation units -/

/-- An import. -/
structure Import where
  path : String
  static : Bool
  wildcard : Bool
  deriving DecidableEq, Repr

/-- The import as Java writes it, without the semicolon. -/
def Import.display (i : Import) : String :=
  "import " ++ (if i.static then "static " else "") ++ i.path ++ (if i.wildcard then ".*" else "")

/-- A compilation unit. -/
structure CompilationUnit where
  package : Option String
  /-- Comments in front of the imports. -/
  comments : List String
  imports : List Import
  /-- The types, each with the comments in front of it. -/
  types : List (List String × TypeDecl)
  /-- Comments that belong to no type. -/
  trailing : List String

end Rubify.Syntax
