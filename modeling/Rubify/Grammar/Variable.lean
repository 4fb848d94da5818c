import Rubify.Grammar.Expression
import Rubify.Grammar.Type

/-!
# Reading modifiers, variables, parameters and arguments (§4.2)

    annotation            ::= '@' qualifiedName ('(' expression? ')')?
    variableDeclarators   ::= variableDeclarator (',' variableDeclarator)*
    variableDeclarator    ::= Identifier ('[' ']')* ('=' variableInitializer)?
    variableInitializer   ::= expression | '{' (variableInitializer (',' variableInitializer)* ','?)? '}'
    formalParameters      ::= '(' formalParameterDecls? ')'
    arguments             ::= '(' (expression (',' expression)*)? ')'

Annotations are read and not kept.
-/

namespace Rubify.Grammar

open MonadWalk Reader Syntax

variable {n : Node}

/-- The keywords that can stand among modifiers. -/
def modifierKeywords : List String :=
  ["public", "protected", "private", "static", "final", "abstract", "transient", "native",
    "volatile", "synchronized", "strictfp"]

/-- An annotation. -/
def annotationUse (d : Dialect) : Reader n Unit :=
  inside ["annotation"] fun _ _ => do
    token "@"
    let _ ← qualifiedName
    if ← tryToken "(" then
      if ← nextIs ["expression"] then
        let _ ← expression d
      token ")"

/-- A list of modifiers, each a keyword or an annotation; gives the keywords. -/
def modifierList (d : Dialect) (listKind itemKind : String) : Reader n (List String) :=
  inside [listKind] fun _ _ => do
    let items ← many itemKind fun _ _ => do
      match ← tryMatch modifierKeywords with
      | some keyword => return [keyword]
      | none =>
        annotationUse d
        return []
    return items.flatten

/-- The modifiers of a member. -/
def modifiers (d : Dialect) : Reader n (List String) :=
  modifierList d "modifiers" "modifier"

/-- The modifiers of a variable, which are not kept. -/
def variableModifiers (d : Dialect) : Reader n Unit := do
  let _ ← modifierList d "variableModifiers" "variableModifier"

/-! ## Variables -/

/-- The name of a variable and its array dimensions. -/
def declaratorId (type : TypeRef) : Reader n (String × TypeRef) :=
  inside ["variableDeclaratorId"] fun _ _ => do
    let ident ← name
    return (ident, type.addDims (← dims))

/-- Inside a `variableInitializer`. -/
def initializerIn (d : Dialect) (n : Node) : Reader n Initializer := do
  if ← nextIs ["arrayInitializer"] then
    inside ["arrayInitializer"] fun c hc => do
      have := Node.count_lt_of_mem hc
      token "\x7b"
      let element : Reader c Initializer := inside ["variableInitializer"] fun e he =>
        have := Node.count_lt_of_mem he
        initializerIn d e
      let elements ←
        if ← nextIs ["variableInitializer"] then
          let first ← element
          let more ← gather do
            if ← tryToken "," then
              if ← nextIs ["variableInitializer"] then return some (← element)
            return none
          pure (first :: more)
        else pure []
      token "\x7d"
      return .array elements
  else
    return .value (← expression d)
termination_by n.count

/-- The initial value of a variable. -/
def initializer (d : Dialect) : Reader n Initializer :=
  inside ["variableInitializer"] fun c _ => initializerIn d c

/-- The variables of one declaration. -/
def declarators (d : Dialect) (type : TypeRef) : Reader n (List Declarator) :=
  inside ["variableDeclarators"] fun _ _ =>
    separated "," <| inside ["variableDeclarator"] fun _ _ => do
      let (ident, type) ← declaratorId type
      if ← tryToken "=" then return ⟨ident, type, some (← initializer d)⟩
      else return ⟨ident, type, none⟩

/-- The dimensions and the value of an interface constant. -/
def constantRest (d : Dialect) (constant : String) (type : TypeRef) : Reader n Declarator :=
  inside ["constantDeclaratorRest"] fun _ _ => do
    let type := type.addDims (← dims)
    token "="
    return ⟨constant, type, some (← initializer d)⟩

/-! ## Parameters and arguments -/

/-- Inside `formalParameterDecls`: one parameter, and those behind it. A variadic parameter is the
last one. -/
def parametersIn (d : Dialect) (n : Node) : Reader n (List Parameter) := do
  variableModifiers d
  let declared ← type
  inside ["formalParameterDeclsRest"] fun c hc => do
    have := Node.count_lt_of_mem hc
    let variadic ← tryToken "..."
    let (parameter, type) ← declaratorId declared
    if variadic then return [⟨parameter, type.addDims 1, true⟩]
    let more ←
      if ← tryToken "," then
        inside ["formalParameterDecls"] fun r hr =>
          have := Node.count_lt_of_mem hr
          parametersIn d r
      else pure []
    return ⟨parameter, type, false⟩ :: more
termination_by n.count

/-- The parameters of a method or constructor. -/
def parameters (d : Dialect) : Reader n (List Parameter) :=
  inside ["formalParameters"] fun _ _ => do
    token "("
    let params ← Reader.optional "formalParameterDecls" fun c _ => parametersIn d c
    token ")"
    return params.getD []

/-- An argument list. -/
def arguments (d : Dialect) : Reader n (List Expr) :=
  inside ["arguments"] fun _ _ => do
    token "("
    let args ← Reader.optional "expressionList" fun _ _ => separated "," (expression d)
    token ")"
    return args.getD []

end Rubify.Grammar
