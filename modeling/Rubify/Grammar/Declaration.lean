import Rubify.Grammar.Variable

/-!
# Reading declarations and statements (§4.2)

Types contain members, members contain statements, and statements contain types again, so all of
them are read by one mutual recursion on the size of the node. Each `…In` reads the children of one
node of the grammar.

Comments are taken at the beginning of declarations, members, enum constants and block statements,
behind the opening and the closing brace of a type, and behind the closing brace of a block, where
they become the last statements of the block.
-/

namespace Rubify.Grammar

open MonadWalk Reader Syntax

variable {n : Node} {α : Type}

/-! ## Pieces that hold no declarations -/

/-- The name, parameters and clauses of a method, up to its body. -/
structure MethodHead where
  name : String
  generics : List String
  returns : TypeRef

/-- The parameters, dimensions and `throws` clause behind the name of a method. -/
def signatureRest (d : Dialect) (comments : List String) (head : MethodHead) :
    Reader n Signature := do
  let params ← parameters d
  let returns := head.returns.addDims (← dims)
  throws
  return ⟨comments, head.name, head.generics, params, returns⟩

/-- The type or `void` in front of a method name. -/
def returnType : Reader n TypeRef := do
  if ← tryToken "void" then return ⟨.void, 0⟩ else type

/-- An expression between parentheses. -/
def parExpression (d : Dialect) : Reader n Expr :=
  inside ["parExpression"] fun _ _ => do
    token "("
    let e ← expression d
    token ")"
    return e

/-- The local variables of a statement. -/
def localVariables (d : Dialect) : Reader n Statement :=
  inside ["localVariableDeclarationStatement"] fun _ _ => do
    let declared ← inside ["localVariableDeclaration"] fun _ _ => do
      variableModifiers d
      declarators d (← type)
    token ";"
    return .variables declared

/-- The labels of a switch group. -/
def switchLabels (d : Dialect) : Reader n (List (Option Expr)) :=
  many "switchLabel" fun _ _ => do
    let label ←
      if ← tryToken "default" then pure none
      else
        token "case"
        pure (some (← expression d))
    token ":"
    return label

/-- A call of another constructor. -/
def invocation (d : Dialect) : Reader n (Option Invocation) :=
  Reader.optional "explicitConstructorInvocation" fun _ _ => do
    let keyword ← expect ["this", "super"]
    let args ← arguments d
    token ";"
    return ⟨keyword = "this", args⟩

/-- Statements up to the closing brace; the comments in front of it come last. -/
def blockRest (statement : (c : Node) → c ∈ n.children → Reader c (List Statement)) :
    Reader n (List Statement) := do
  let body ← many "blockStatement" statement
  token "\x7d"
  return body.flatten ++ (← takeComments).map .comment

/-- The members between the braces of a type. -/
def typeBody (kind : String) (member : (c : Node) → c ∈ n.children → Reader c α) :
    Reader n (TypeBody α) := do
  token "\x7b"
  let opening ← takeComments
  let members ← many kind member
  token "\x7d"
  return ⟨opening, members, ← takeComments⟩

/-- The interface constants that share a type, behind the name of the first. -/
def constants (d : Dialect) (first : String) (type : TypeRef) : Reader n (List Declarator) :=
  inside ["constantDeclaratorsRest"] fun _ _ => do
    let head ← constantRest d first type
    let more ← gather do
      if ← tryToken "," then
        let constant ← inside ["constantDeclarator"] fun _ _ => do
          constantRest d (← name) type
        return some constant
      else
        return none
    return head :: more

/-- Inside an `annotationTypeDeclaration`. -/
def annotationType (d : Dialect) : Reader n TypeDecl := do
  token "@"
  token "interface"
  let typeName ← name
  inside ["annotationTypeBody"] fun _ _ => do
    token "\x7b"
    let _ ← many "annotationTypeElementDeclaration" fun _ _ => do
      let _ ← modifiers d
      inside ["annotationTypeElementRest"] fun _ _ => do
        let _ ← type
        inside ["annotationMethodOrConstantRest"] fun _ _ =>
          inside ["annotationMethodRest"] fun _ _ => do
            let _ ← name
            token "("
            token ")"
        token ";"
    token "\x7d"
  return .annotationType typeName (← takeComments)

/-- A method of an interface, behind its name. -/
def interfaceMethod (d : Dialect) (kind : String) (comments : List String) (head : MethodHead) :
    Reader n InterfaceMember :=
  inside [kind] fun _ _ => do
    let signature ← signatureRest d comments head
    token ";"
    return .method signature

/-- A statement used as a branch: a block is its statements. -/
def branchOf : Option Statement → List Statement
  | some (.block body) => body
  | some s => [s]
  | none => []

/-- What a statement can begin with. -/
def statementStarts : List String :=
  ["block", "statementExpression", "Identifier", "if", "while", "switch", "return", "throw",
    "break", ";"]

/-- What a member can begin with. -/
def memberStarts : List String :=
  ["genericMethodOrConstructorDecl", "memberDeclaration", "void", "Identifier",
    "interfaceDeclaration", "classDeclaration"]

/-- What a member of an interface can begin with. -/
def interfaceMemberStarts : List String :=
  ["interfaceMethodOrFieldDecl", "interfaceGenericMethodDecl", "void", "interfaceDeclaration",
    "classDeclaration"]

/-- Fails because the next child begins nothing that is expected. -/
def refuseNext (kinds : List String) : Reader n α := do
  refuse (← mismatch kinds)

/-! ## Declarations, members and statements -/

mutual

/-- Inside a `classOrInterfaceDeclaration`: the comments in front of a type, and the type. -/
def declarationIn (d : Dialect) (n : Node) : Reader n (List String × TypeDecl) := do
  let comments ← takeComments
  let words ← modifierList d "classOrInterfaceModifiers" "classOrInterfaceModifier"
  if ← nextIs ["classDeclaration"] then
    let decl ← inside ["classDeclaration"] fun c hc =>
      have := Node.count_lt_of_mem hc
      classIn d (words.contains "static") c
    return (comments, decl)
  else if ← nextIs ["interfaceDeclaration"] then
    let decl ← inside ["interfaceDeclaration"] fun c hc =>
      have := Node.count_lt_of_mem hc
      interfaceIn d c
    return (comments, decl)
  else
    refuseNext ["classDeclaration", "interfaceDeclaration"]
termination_by n.count

/-- Inside a `classDeclaration`. -/
def classIn (d : Dialect) (static : Bool) (n : Node) : Reader n TypeDecl := do
  if ← nextIs ["enumDeclaration"] then
    inside ["enumDeclaration"] fun c hc =>
      have := Node.count_lt_of_mem hc
      enumIn d c
  else
    inside ["normalClassDeclaration"] fun c hc => do
      have := Node.count_lt_of_mem hc
      token "class"
      let typeName ← name
      let generics ← optionalTypeParameters
      let superclass ← if ← tryToken "extends" then some <$> type else pure none
      let interfaces ← if ← tryToken "implements" then typeList else pure []
      let body ← inside ["classBody"] fun b hb =>
        have := Node.count_lt_of_mem hb
        classBodyIn d b
      return .classType typeName static generics superclass interfaces body
termination_by n.count

/-- Inside a `classBody`. -/
def classBodyIn (d : Dialect) (n : Node) : Reader n (TypeBody Member) :=
  typeBody "classBodyDeclaration" fun c hc =>
    have := Node.count_lt_of_mem hc
    memberIn d c
termination_by n.count

/-- Inside a `classBodyDeclaration`. -/
def memberIn (d : Dialect) (n : Node) : Reader n Member := do
  let comments ← takeComments
  if ← tryToken ";" then return .empty comments
  if ← nextIs ["static", "block"] then
    if ← tryToken "static" then
      let body ← inside ["block"] fun c hc =>
        have := Node.count_lt_of_mem hc
        blockIn d c
      return .initializer comments body
    else unsupported "instance initializer block"
  let words ← modifiers d
  inside ["memberDecl"] fun c hc =>
    have := Node.count_lt_of_mem hc
    memberDeclIn d comments words c
termination_by n.count

/-- Inside a `memberDecl`. -/
def memberDeclIn (d : Dialect) (comments words : List String) (n : Node) : Reader n Member := do
  match ← peekKind? with
  | some "genericMethodOrConstructorDecl" =>
    inside ["genericMethodOrConstructorDecl"] fun c hc => do
      have := Node.count_lt_of_mem hc
      let generics ← typeParameters
      inside ["genericMethodOrConstructorRest"] fun r hr => do
        have := Node.count_lt_of_mem hr
        if ← nextIs ["Identifier"] then
          let _ ← name
          inside ["constructorDeclaratorRest"] fun b hb =>
            have := Node.count_lt_of_mem hb
            constructorIn d comments generics b
        else
          let returns ← returnType
          let method ← name
          inside ["methodDeclaratorRest"] fun b hb =>
            have := Node.count_lt_of_mem hb
            methodIn d comments words ⟨method, generics, returns⟩ b
  | some "memberDeclaration" =>
    inside ["memberDeclaration"] fun c hc => do
      have := Node.count_lt_of_mem hc
      let declared ← type
      if ← nextIs ["fieldDeclaration"] then
        inside ["fieldDeclaration"] fun _ _ => do
          let fields ← declarators d declared
          token ";"
          return .fields comments (words.contains "static") (words.contains "final") fields
      else
        inside ["methodDeclaration"] fun m hm => do
          have := Node.count_lt_of_mem hm
          let method ← name
          inside ["methodDeclaratorRest"] fun b hb =>
            have := Node.count_lt_of_mem hb
            methodIn d comments words ⟨method, [], declared⟩ b
  | some "void" =>
    token "void"
    let method ← name
    inside ["voidMethodDeclaratorRest"] fun b hb =>
      have := Node.count_lt_of_mem hb
      methodIn d comments words ⟨method, [], ⟨.void, 0⟩⟩ b
  | some "Identifier" =>
    let _ ← name
    inside ["constructorDeclaratorRest"] fun b hb =>
      have := Node.count_lt_of_mem hb
      constructorIn d comments [] b
  | some "interfaceDeclaration" =>
    inside ["interfaceDeclaration"] fun c hc => do
      have := Node.count_lt_of_mem hc
      return .type comments (← interfaceIn d c)
  | some "classDeclaration" =>
    inside ["classDeclaration"] fun c hc => do
      have := Node.count_lt_of_mem hc
      return .type comments (← classIn d (words.contains "static") c)
  | _ => refuseNext memberStarts
termination_by n.count

/-- What follows the name of a method. Without a body it is native if declared so, and abstract
otherwise. -/
def methodIn (d : Dialect) (comments words : List String) (head : MethodHead) (n : Node) :
    Reader n Member := do
  let signature ← signatureRest d comments head
  let body ←
    if ← tryToken ";" then
      pure (if words.contains "native" then .native else .abstract)
    else
      inside ["methodBody"] fun c hc => do
        have := Node.count_lt_of_mem hc
        let body ← inside ["block"] fun b hb =>
          have := Node.count_lt_of_mem hb
          blockIn d b
        return .block body
  return .method signature (words.contains "static") (words.contains "synchronized") body
termination_by n.count

/-- Inside a `constructorDeclaratorRest`. -/
def constructorIn (d : Dialect) (comments generics : List String) (n : Node) :
    Reader n Member := do
  let params ← parameters d
  throws
  inside ["constructorBody"] fun c hc => do
    have := Node.count_lt_of_mem hc
    token "\x7b"
    let call ← invocation d
    let body ← blockRest fun s hs =>
      have := Node.count_lt_of_mem hs
      blockStatementIn d s
    return .constructor comments generics params call body
termination_by n.count

/-- Inside an `enumDeclaration`. -/
def enumIn (d : Dialect) (n : Node) : Reader n TypeDecl := do
  token "enum"
  let typeName ← name
  let interfaces ← if ← tryToken "implements" then typeList else pure []
  inside ["enumBody"] fun c hc => do
    have := Node.count_lt_of_mem hc
    token "\x7b"
    let opening ← takeComments
    let constants ← Reader.optional "enumConstants" fun e he =>
      have := Node.count_lt_of_mem he
      separated "," <| inside ["enumConstant"] fun k hk =>
        have := Node.count_lt_of_mem hk
        enumConstantIn d k
    let _ ← tryToken ","
    let members ← Reader.optional "enumBodyDeclarations" fun b hb => do
      have := Node.count_lt_of_mem hb
      token ";"
      many "classBodyDeclaration" fun m hm =>
        have := Node.count_lt_of_mem hm
        memberIn d m
    token "\x7d"
    return .enumType typeName interfaces (constants.getD [])
      ⟨opening, members.getD [], ← takeComments⟩
termination_by n.count

/-- Inside an `enumConstant`. -/
def enumConstantIn (d : Dialect) (n : Node) : Reader n (EnumConstant Member) := do
  let comments ← takeComments
  let _ ← gather do
    if ← nextIs ["annotation"] then
      annotationUse d
      return some ()
    else
      return none
  let constant ← name
  let args ← if ← nextIs ["arguments"] then arguments d else pure []
  let body ← Reader.optional "classBody" fun c hc =>
    have := Node.count_lt_of_mem hc
    classBodyIn d c
  return ⟨comments, constant, args, body⟩
termination_by n.count

/-- Inside an `interfaceDeclaration`. -/
def interfaceIn (d : Dialect) (n : Node) : Reader n TypeDecl := do
  if ← nextIs ["annotationTypeDeclaration"] then
    inside ["annotationTypeDeclaration"] fun _ _ => annotationType d
  else
    inside ["normalInterfaceDeclaration"] fun c hc => do
      have := Node.count_lt_of_mem hc
      token "interface"
      let typeName ← name
      let generics ← optionalTypeParameters
      let parents ← if ← tryToken "extends" then typeList else pure []
      let body ← inside ["interfaceBody"] fun b hb =>
        have := Node.count_lt_of_mem hb
        typeBody "interfaceBodyDeclaration" fun m hm =>
          have := Node.count_lt_of_mem hm
          interfaceMemberIn d m
      return .interfaceType typeName generics parents body
termination_by n.count

/-- Inside an `interfaceBodyDeclaration`. -/
def interfaceMemberIn (d : Dialect) (n : Node) : Reader n InterfaceMember := do
  let comments ← takeComments
  if ← tryToken ";" then return .empty comments
  let words ← modifiers d
  inside ["interfaceMemberDecl"] fun c hc => do
    have := Node.count_lt_of_mem hc
    match ← peekKind? with
    | some "interfaceMethodOrFieldDecl" =>
      inside ["interfaceMethodOrFieldDecl"] fun _ _ => do
        let declared ← type
        let member ← name
        inside ["interfaceMethodOrFieldRest"] fun _ _ => do
          if ← nextIs ["interfaceMethodDeclaratorRest"] then
            interfaceMethod d "interfaceMethodDeclaratorRest" comments ⟨member, [], declared⟩
          else
            let declared ← constants d member declared
            token ";"
            return .constants comments declared
    | some "interfaceGenericMethodDecl" =>
      inside ["interfaceGenericMethodDecl"] fun _ _ => do
        let generics ← typeParameters
        let returns ← returnType
        let method ← name
        interfaceMethod d "interfaceMethodDeclaratorRest" comments ⟨method, generics, returns⟩
    | some "void" =>
      token "void"
      let method ← name
      interfaceMethod d "voidInterfaceMethodDeclaratorRest" comments ⟨method, [], ⟨.void, 0⟩⟩
    | some "interfaceDeclaration" =>
      inside ["interfaceDeclaration"] fun t ht => do
        have := Node.count_lt_of_mem ht
        return .type comments (← interfaceIn d t)
    | some "classDeclaration" =>
      inside ["classDeclaration"] fun t ht => do
        have := Node.count_lt_of_mem ht
        return .type comments (← classIn d (words.contains "static") t)
    | _ => refuseNext interfaceMemberStarts
termination_by n.count

/-- Inside a `block`. -/
def blockIn (d : Dialect) (n : Node) : Reader n (List Statement) := do
  token "\x7b"
  blockRest fun c hc =>
    have := Node.count_lt_of_mem hc
    blockStatementIn d c
termination_by n.count

/-- Inside a `blockStatement`. -/
def blockStatementIn (d : Dialect) (n : Node) : Reader n (List Statement) := do
  let comments ← match d with
    | .ruby => takeComments
    | .plain => pure []
  let statements ←
    if ← nextIs ["classOrInterfaceDeclaration"] then
      inside ["classOrInterfaceDeclaration"] fun c hc => do
        have := Node.count_lt_of_mem hc
        let (comments, decl) ← declarationIn d c
        return [Statement.type comments decl]
    else
      match d with
      | .ruby =>
        if ← nextIs ["localVariableDeclarationStatement"] then
          pure [← localVariables d]
        else
          let s ← inside ["statement"] fun c hc =>
            have := Node.count_lt_of_mem hc
            statementIn d c
          pure s.toList
      | .plain =>
        if ← nextIs ["arguments"] then pure [.invoke (← arguments d)]
        else
          let s ← inside ["statement"] fun c hc =>
            have := Node.count_lt_of_mem hc
            plainStatementIn c
          pure [s]
  return comments.map .comment ++ statements
termination_by n.count

/-- Inside a `statement`; the empty statement is nothing. -/
def statementIn (d : Dialect) (n : Node) : Reader n (Option Statement) := do
  let branch : Reader n (List Statement) := do
    let s ← inside ["statement"] fun c hc =>
      have := Node.count_lt_of_mem hc
      statementIn d c
    return branchOf s
  match ← peekKind? with
  | some "block" =>
    let body ← inside ["block"] fun c hc =>
      have := Node.count_lt_of_mem hc
      blockIn d c
    return some (.block body)
  | some "if" =>
    token "if"
    let condition ← parExpression d
    let thenBranch ← branch
    let elseBranch ← if ← tryToken "else" then some <$> branch else pure none
    return some (.ifThen condition thenBranch elseBranch)
  | some "while" =>
    token "while"
    let condition ← parExpression d
    return some (.loop condition (← branch))
  | some "switch" =>
    token "switch"
    let value ← parExpression d
    token "\x7b"
    let groups ← Reader.optional "switchBlockStatementGroups" fun c hc =>
      have := Node.count_lt_of_mem hc
      many "switchBlockStatementGroup" fun g hg => do
        have := Node.count_lt_of_mem hg
        let labels ← switchLabels d
        let body ← many "blockStatement" fun s hs =>
          have := Node.count_lt_of_mem hs
          blockStatementIn d s
        return ⟨labels, body.flatten⟩
    token "\x7d"
    return some (.switch value (groups.getD []))
  | some "return" =>
    token "return"
    let value ← if ← nextIs ["expression"] then some <$> expression d else pure none
    token ";"
    return some (.return value)
  | some "throw" =>
    token "throw"
    let value ← expression d
    token ";"
    return some (.throw value)
  | some "break" =>
    token "break"
    let label ← if ← nextIs ["Identifier"] then some <$> name else pure none
    token ";"
    return some (.leave label)
  | some ";" =>
    token ";"
    return none
  | some "statementExpression" =>
    let value ← inside ["statementExpression"] fun _ _ => expression d
    token ";"
    return some (.expr value)
  | some "Identifier" =>
    let label ← name
    token ":"
    return some (.labeled label (← branch))
  | _ => refuseNext statementStarts
termination_by n.count

/-- Inside a `statement` of the plain dialect. -/
def plainStatementIn (n : Node) : Reader n Statement := do
  if ← nextIs ["block"] then
    inside ["block"] fun c hc => do
      have := Node.count_lt_of_mem hc
      token "\x7b"
      let body ← many "blockStatement" fun s hs =>
        have := Node.count_lt_of_mem hs
        blockStatementIn .plain s
      token "\x7d"
      return .block body.flatten
  else
    let value ← inside ["statementExpression"] fun _ _ => expression .plain
    token ";"
    return .expr value
termination_by n.count

end

end Rubify.Grammar
