import Rubify.Program.Module
import Rubify.Syntax.Decl

/-!
# What is known around a declaration (§4.2)

A context says in which module and which method a declaration stands, which type variables are in
scope, and which types the body around it has declared. From it follow the kind of a module
(`kindOf`) and the meaning of a type name (`resolve`): a type variable is erased to `Object`, a type
of the body is found under its constant path, anything else by its dotted name.
-/

namespace Rubify.Program

/-- The surroundings of a declaration. -/
structure Context where
  module : Option ModuleId := none
  method : Option MethodOwner := none
  typeParams : List String := []
  /-- The types of the body, by their Java name, with their constant paths. -/
  localTypes : List (String × List String) := []
  deriving DecidableEq, Repr

/-- The sorts of type declarations. -/
inductive DeclKind
  | classType | interfaceType | enumType
  deriving DecidableEq, Repr

namespace Context

/-- The surroundings of the types at top level. -/
def topLevel : Context := {}

/-- The owner of a module declared here. -/
def owner (cx : Context) : Owner := ⟨cx.module, cx.method⟩

/-- Inside a module. Type variables stay in scope, the method and the types of its body do not. -/
def enterModule (cx : Context) (id : ModuleId) (generics : List String) : Context :=
  { module := some id, typeParams := cx.typeParams ++ generics }

/-- Inside a method. -/
def enterMethod (cx : Context) (name : String) (static : Bool) (generics : List String) : Context :=
  { cx with method := some ⟨name, static⟩, typeParams := cx.typeParams ++ generics }

/-- Behind the declaration of a type of the body. -/
def declareLocal (cx : Context) (name : String) (path : List String) : Context :=
  { cx with localTypes := cx.localTypes ++ [(name, path)] }

/-- Whether a name is a type variable. -/
def isTypeParam (cx : Context) (name : String) : Bool :=
  cx.typeParams.contains name

/-- The constant path of the type of the body declared last under a name. -/
def localType? (cx : Context) (name : String) : Option (List String) :=
  (cx.localTypes.reverse.find? (·.1 = name)).map (·.2)

/-- The kind of a module declared here (kind inference, §4.2). -/
def kindOf (cx : Context) (decl : DeclKind) (static : Bool) : ModuleKind :=
  match decl with
  | .enumType => .enum
  | .classType =>
    if cx.method.isSome then .innerClass
    else if cx.module.isSome then (if static then .staticClass else .memberClass)
    else .topClass
  | .interfaceType => if cx.module.isSome then .nestedInterface else .topInterface

/-- The type that the segments of a name mean (generics, §4.2). -/
def resolveName (cx : Context) (segments : List String) : JavaType :=
  let dotted := JavaType.named (.ofDotted (".".intercalate segments))
  match segments with
  | [name] =>
    if cx.isTypeParam name then .object
    else
      match cx.localType? name with
      | some path => .named ⟨[], path⟩
      | none => dotted
  | _ => dotted

/-- The type that was written. -/
def resolve (cx : Context) (t : Syntax.TypeRef) : JavaType :=
  .arrays t.dims <|
    match t.base with
    | .primitive p => .primitive p
    | .void => .void
    | .named segments => cx.resolveName segments

end Context

end Rubify.Program
