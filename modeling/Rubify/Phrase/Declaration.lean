import Rubify.Phrase.Statement
import Rubify.Text.Scan

/-!
# Phrases: declarations (§10.4)

Modifiers are given as words; one that begins with `@` is an annotation. Parameters are pairs of a
type and a name, and the type of a variadic one ends in three dots.
-/

namespace Rubify.Phrase

open Text (after?)

/-- The text without `ending`, if it ends in it. -/
def before? (ending text : String) : Option String :=
  (after? ending.toList.reverse text.toList.reverse).map fun cs => String.ofList cs.reverse

/-! ## Modifiers -/

/-- A modifier: a keyword or, behind an `@`, an annotation without arguments. -/
def modifier (kind word : String) : Node :=
  match after? ['@'] word.toList with
  | some name =>
    node kind [node "annotation" [token "@", qualifiedName (String.ofList name)]]
  | none => node kind [token word]

/-- The modifiers of a member. -/
def modifiers (words : List String) : Node :=
  node "modifiers" (words.map (modifier "modifier"))

/-- A class, enum or interface with its modifiers. -/
def typeDeclaration (words : List String) (decl : Node) : Node :=
  node "classOrInterfaceDeclaration"
    [node "classOrInterfaceModifiers" (words.map (modifier "classOrInterfaceModifier")), decl]

/-! ## Compilation units -/

/-- An import as Java writes it between `import` and the semicolon. -/
def importDeclaration (text : String) : Node :=
  let (static, path) :=
    match after? "static ".toList text.toList with
    | some rest => ([token "static"], String.ofList rest)
    | none => ([], text)
  let target :=
    match before? ".*" path with
    | some package => [qualifiedName package, token ".", token "*"]
    | none => [qualifiedName path]
  node "importDeclaration" ([token "import"] ++ static ++ target ++ [token ";"])

/-- A compilation unit. -/
def compilationUnit (package : Option String) (imports : List String) (types : List Node) : Node :=
  node "compilationUnit" <|
    (package.map fun path =>
      node "packageDeclaration" [token "package", qualifiedName path, token ";"]).toList ++
    imports.map importDeclaration ++
    types.map fun decl => node "typeDeclaration" [decl]

/-! ## Types -/

/-- A keyword with types behind it, unless there are none. -/
def typeClause (keyword : String) (types : List String) : List Node :=
  if types.isEmpty then [] else [token keyword, typeList types]

/-- Type parameters, unless there are none. -/
def genericsClause (names : List String) : List Node :=
  if names.isEmpty then [] else [typeParameters names]

/-- The body of a class. -/
def classBody (members : List Node) : Node :=
  node "classBody" ([token "\x7b"] ++ members ++ [token "\x7d"])

/-- A class. -/
def classDeclaration (name : String) (generics : List String) (superclass : Option String)
    (interfaces : List String) (members : List Node) : Node :=
  node "classDeclaration" [node "normalClassDeclaration" <|
    [token "class", identifier name] ++ genericsClause generics ++
    (match superclass with
     | some text => [token "extends", type text]
     | none => []) ++
    typeClause "implements" interfaces ++ [classBody members]]

/-- An enum; its members stand behind the constants and a semicolon. -/
def enumDeclaration (name : String) (interfaces : List String) (constants members : List Node) :
    Node :=
  let body :=
    [token "\x7b"] ++
    (if constants.isEmpty then [] else [node "enumConstants" (separated "," constants)]) ++
    (if members.isEmpty then [] else [node "enumBodyDeclarations" (token ";" :: members)]) ++
    [token "\x7d"]
  node "classDeclaration" [node "enumDeclaration" <|
    [token "enum", identifier name] ++ typeClause "implements" interfaces ++
    [node "enumBody" body]]

/-- A constant of an enum. -/
def enumConstant (name : String) (sources : List String) (body : Option (List Node)) : Node :=
  node "enumConstant" <|
    [identifier name] ++ (if sources.isEmpty then [] else [arguments sources]) ++
    (body.map classBody).toList

/-- An interface. -/
def interfaceDeclaration (name : String) (generics parents : List String) (members : List Node) :
    Node :=
  node "interfaceDeclaration" [node "normalInterfaceDeclaration" <|
    [token "interface", identifier name] ++ genericsClause generics ++
    typeClause "extends" parents ++
    [node "interfaceBody" ([token "\x7b"] ++ members ++ [token "\x7d"])]]

/-- An element of an annotation type. -/
def annotationElement (elementType name : String) : Node :=
  node "annotationTypeElementDeclaration"
    [modifiers [],
     node "annotationTypeElementRest"
      [type elementType,
       node "annotationMethodOrConstantRest"
        [node "annotationMethodRest" [identifier name, token "(", token ")"]],
       token ";"]]

/-- An annotation type with elements, each a type and a name. -/
def annotationType (name : String) (elements : List (String × String)) : Node :=
  node "interfaceDeclaration" [node "annotationTypeDeclaration"
    [token "@", token "interface", identifier name,
     node "annotationTypeBody" <|
      [token "\x7b"] ++ elements.map (fun (t, n) => annotationElement t n) ++ [token "\x7d"]]]

/-! ## Members -/

/-- A member of a class with its modifiers. -/
def member (words : List String) (decl : List Node) : Node :=
  node "classBodyDeclaration" [modifiers words, node "memberDecl" decl]

/-- A type declared in a class. -/
def memberType (words : List String) (decl : Node) : Node :=
  member words [decl]

/-- Fields of one type. -/
def field (words : List String) (fieldType : String)
    (declarators : List (String × Option String)) : Node :=
  member words [node "memberDeclaration"
    [type fieldType, node "fieldDeclaration" [variableDeclarators declarators, token ";"]]]

/-- Parameters, each holding those behind it; without any there is no node. -/
def parameterDecls : List (String × String) → List Node
  | [] => []
  | (text, name) :: rest =>
    let (dots, element) :=
      match before? "..." text with
      | some element => ([token "..."], element)
      | none => ([], text)
    let more := parameterDecls rest
    [node "formalParameterDecls"
      [node "variableModifiers" [], type element,
       node "formalParameterDeclsRest" <|
        dots ++ [node "variableDeclaratorId" [identifier name]] ++
        (if more.isEmpty then [] else token "," :: more)]]

/-- A parameter list. -/
def formalParameters (params : List (String × String)) : Node :=
  node "formalParameters" ([token "("] ++ parameterDecls params ++ [token ")"])

/-- The parameters and the body of a method. -/
def methodRest (kind : String) (params : List (String × String)) (body : Option (List Node)) :
    Node :=
  let rest :=
    match body with
    | some statements => node "methodBody" [block statements]
    | none => token ";"
  node kind [formalParameters params, rest]

/-- What a method returns, which may be nothing. -/
def returnType (text : String) : Node :=
  if text = "void" then token "void" else type text

/-- A method; without body it is abstract or native. -/
def method (words : List String) (returns name : String) (params : List (String × String))
    (body : Option (List Node)) : Node :=
  member words <|
    if returns = "void" then
      [token "void", identifier name, methodRest "voidMethodDeclaratorRest" params body]
    else
      [node "memberDeclaration"
        [type returns,
         node "methodDeclaration"
          [identifier name, methodRest "methodDeclaratorRest" params body]]]

/-- A method with type parameters of its own. -/
def genericMethod (words generics : List String) (returns name : String)
    (params : List (String × String)) (body : Option (List Node)) : Node :=
  member words [node "genericMethodOrConstructorDecl"
    [typeParameters generics,
     node "genericMethodOrConstructorRest"
      [returnType returns, identifier name, methodRest "methodDeclaratorRest" params body]]]

/-- A constructor that begins with `keyword(sources)` if there is a keyword. -/
def constructorCalling (words : List String) (name : String) (params : List (String × String))
    (keyword : Option String) (sources : List String) (body : List Node) : Node :=
  let call := keyword.map fun word =>
    node "explicitConstructorInvocation" [token word, arguments sources, token ";"]
  member words
    [identifier name,
     node "constructorDeclaratorRest"
      [formalParameters params,
       node "constructorBody"
        ([token "\x7b"] ++ call.toList ++ blockStatements body ++ [token "\x7d"])]]

/-- A constructor. -/
def constructor (words : List String) (name : String) (params : List (String × String))
    (body : List Node) : Node :=
  constructorCalling words name params none [] body

/-- A static initializer block. -/
def staticBlock (body : List Node) : Node :=
  node "classBodyDeclaration" [token "static", block body]

/-! ## Members of interfaces -/

/-- A member of an interface with its modifiers. -/
def interfaceMember (words : List String) (decl : List Node) : Node :=
  node "interfaceBodyDeclaration" [modifiers words, node "interfaceMemberDecl" decl]

/-- A type declared in an interface. -/
def interfaceMemberType (words : List String) (decl : Node) : Node :=
  interfaceMember words [decl]

/-- A method of an interface. -/
def interfaceMethod (returns name : String) (params : List (String × String)) : Node :=
  interfaceMember [] <|
    if returns = "void" then
      [token "void", identifier name, methodRest "voidInterfaceMethodDeclaratorRest" params none]
    else
      [node "interfaceMethodOrFieldDecl"
        [type returns, identifier name,
         node "interfaceMethodOrFieldRest"
          [methodRest "interfaceMethodDeclaratorRest" params none]]]

/-- A method of an interface with type parameters of its own. -/
def interfaceGenericMethod (generics : List String) (returns name : String)
    (params : List (String × String)) : Node :=
  interfaceMember [] [node "interfaceGenericMethodDecl"
    [typeParameters generics, returnType returns, identifier name,
     methodRest "interfaceMethodDeclaratorRest" params none]]

/-- The value of a constant. -/
def constantRest (source : String) : Node :=
  node "constantDeclaratorRest" [token "=", node "variableInitializer" [expression source]]

/-- Constants of one type: the name and value of the first, and those of the others. -/
def interfaceConstants (constantType name value : String) (others : List (String × String)) :
    Node :=
  let rest := others.flatMap fun (other, source) =>
    [token ",", node "constantDeclarator" [identifier other, constantRest source]]
  interfaceMember [] [node "interfaceMethodOrFieldDecl"
    [type constantType, identifier name,
     node "interfaceMethodOrFieldRest"
      [node "constantDeclaratorsRest" (constantRest value :: rest), token ";"]]]

end Rubify.Phrase
