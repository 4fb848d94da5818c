import Rubify.Phrase.Basic

/-!
# Phrases: statements (§10.4)

Bodies may hold statements, block statements and comments alike; `blockStatements` wraps what needs
it.
-/

namespace Rubify.Phrase

/-- The node as a block statement, or as it is if it is a comment. -/
def wrapped (n : Node) : Node :=
  if n.kind = "blockStatement" || n.isComment then n else node "blockStatement" [n]

/-- Wraps every node that is neither a block statement nor a comment. -/
def blockStatements (body : List Node) : List Node := body.map wrapped

/-- A block. -/
def block (body : List Node) : Node :=
  node "block" ([token "\x7b"] ++ blockStatements body ++ [token "\x7d"])

/-- Variables, each with its initial value if it has one. -/
def variableDeclarators (declarators : List (String × Option String)) : Node :=
  node "variableDeclarators" <| separated "," <| declarators.map fun (name, init) =>
    node "variableDeclarator" <|
      node "variableDeclaratorId" [identifier name] ::
      (match init with
       | some source => [token "=", node "variableInitializer" [expression source]]
       | none => [])

/-- The declaration of local variables of one type, as a block statement. -/
def localVariables (varType : String) (declarators : List (String × Option String)) : Node :=
  node "blockStatement" [node "localVariableDeclarationStatement"
    [node "localVariableDeclaration"
      [node "variableModifiers" [], type varType, variableDeclarators declarators],
     token ";"]]

/-- A type declared inside a body, as a block statement. -/
def localType (decl : Node) : Node :=
  node "blockStatement" [decl]

/-- A statement of given parts. -/
def statement (children : List Node) : Node :=
  node "statement" children

/-- An expression in parentheses. -/
def parExpression (source : String) : Node :=
  node "parExpression" [token "(", expression source, token ")"]

/-- An expression used as a statement. -/
def expressionStatement (source : String) : Node :=
  statement [node "statementExpression" [expression source], token ";"]

/-- A block used as a statement. -/
def blockStatement (body : List Node) : Node :=
  statement [block body]

/-- An `if`. -/
def ifStatement (condition : String) (thenBranch : Node) (elseBranch : Option Node) : Node :=
  statement <|
    [token "if", parExpression condition, thenBranch] ++
    (match elseBranch with
     | some branch => [token "else", branch]
     | none => [])

/-- A `while`. -/
def whileStatement (condition : String) (body : Node) : Node :=
  statement [token "while", parExpression condition, body]

/-- A label of a switch group; `default` if there is no value. -/
def switchLabel (value : Option String) : Node :=
  node "switchLabel" <|
    match value with
    | some source => [token "case", expression source, token ":"]
    | none => [token "default", token ":"]

/-- A `switch` with groups of labels and statements. -/
def switchStatement (value : String) (groups : List (List (Option String) × List Node)) : Node :=
  statement
    [token "switch", parExpression value, token "\x7b",
     node "switchBlockStatementGroups" (groups.map fun (labels, body) =>
       node "switchBlockStatementGroup" (labels.map switchLabel ++ blockStatements body)),
     token "\x7d"]

/-- A `return`. -/
def returnStatement (value : Option String) : Node :=
  statement ([token "return"] ++ (value.map expression).toList ++ [token ";"])

/-- A `throw`. -/
def throwStatement (value : String) : Node :=
  statement [token "throw", expression value, token ";"]

/-- A `break`. -/
def breakStatement (label : Option String) : Node :=
  statement ([token "break"] ++ (label.map identifier).toList ++ [token ";"])

/-- A statement with a label. -/
def labeledStatement (label : String) (body : Node) : Node :=
  statement [identifier label, token ":", body]

end Rubify.Phrase
