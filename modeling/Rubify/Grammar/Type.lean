import Rubify.Grammar.Reader
import Rubify.Syntax.Decl

/-!
# Reading types and names (§4.2)

    type             ::= (classOrInterfaceType | primitiveType) ('[' ']')*
    typeArguments    ::= '<' typeArgument (',' typeArgument)* '>'
    typeArgument     ::= type | '?' (('extends' | 'super') type)?
    typeParameters   ::= '<' typeParameter (',' typeParameter)* '>'
    typeParameter    ::= Identifier ('extends' type ('&' type)*)?
    qualifiedName    ::= Identifier ('.' Identifier)*

Type arguments and bounds are read and not kept.
-/

namespace Rubify.Grammar

open MonadWalk Reader Syntax

variable {n : Node}

/-- Pairs of brackets; gives how many. -/
def dims : Reader n Nat := do
  let pairs ← gather do
    if ← tryToken "[" then
      token "]"
      return some ()
    else
      return none
  return pairs.length

/-- The primitive type of a keyword, as a type name. -/
def primitiveName (keyword : String) : TypeName :=
  match Primitive.ofKeyword? keyword with
  | some p => .primitive p
  | none => .named ["java", "lang", "Object"]

mutual

/-- Inside a `type`. -/
def typeIn (n : Node) : Reader n TypeRef := do
  let base ←
    if ← nextIs ["primitiveType"] then
      inside ["primitiveType"] fun _ _ =>
        return primitiveName (← expect (Primitive.all.map Primitive.keyword))
    else
      inside ["classOrInterfaceType"] fun c hc =>
        have := Node.count_lt_of_mem hc
        classTypeIn c
  return ⟨base, ← dims⟩
termination_by n.count

/-- Inside a `classOrInterfaceType`. -/
def classTypeIn (n : Node) : Reader n TypeName := do
  let segments ← separated "." do
    let segment ← name
    let _ ← Reader.optional "typeArguments" fun c hc =>
      have := Node.count_lt_of_mem hc
      typeArgumentsIn c
    return segment
  return .named segments
termination_by n.count

/-- Inside `typeArguments`. -/
def typeArgumentsIn (n : Node) : Reader n Unit := do
  token "<"
  let _ ← separated "," <| inside ["typeArgument"] fun c hc => do
    have := Node.count_lt_of_mem hc
    let bounded ←
      if ← tryToken "?" then pure (← tryMatch ["extends", "super"]).isSome
      else pure true
    if bounded then
      let _ ← inside ["type"] fun t ht =>
        have := Node.count_lt_of_mem ht
        typeIn t
  token ">"
termination_by n.count

end

/-- A type. -/
def type : Reader n TypeRef :=
  inside ["type"] fun c _ => typeIn c

/-- Types divided by commas. -/
def typeList : Reader n (List TypeRef) :=
  inside ["typeList"] fun _ _ => separated "," type

/-- The names of type parameters. -/
def typeParameters : Reader n (List String) :=
  inside ["typeParameters"] fun _ _ => do
    token "<"
    let names ← separated "," <| inside ["typeParameter"] fun _ _ => do
      let parameter ← name
      if ← tryToken "extends" then
        let _ ← inside ["typeBound"] fun _ _ => separated "&" type
      return parameter
    token ">"
    return names

/-- The names of type parameters, if there are any. -/
def optionalTypeParameters : Reader n (List String) := do
  if ← nextIs ["typeParameters"] then typeParameters else return []

/-- A dotted name. -/
def qualifiedName : Reader n String :=
  inside ["qualifiedName"] fun _ _ => return ".".intercalate (← separated "." name)

/-- A `throws` clause, which is not kept. -/
def throws : Reader n Unit := do
  if ← tryToken "throws" then
    let _ ← inside ["qualifiedNameList"] fun _ _ => separated "," qualifiedName

end Rubify.Grammar
