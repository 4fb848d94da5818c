import Rubify.Java.Type
import Rubify.Text.Whitespace
import Rubify.Tree.Node

/-!
# Phrases: names, types and expressions (§10.4)

Each function builds the tree of one grammar production from its parts as Java writes them: names
and types as dotted texts, expressions as texts with blanks between the tokens.
-/

namespace Rubify.Phrase

/-- A node without payload. -/
def node (kind : String) (children : List Node) : Node :=
  ⟨kind, none, children⟩

/-- A token; its text is its kind. -/
def token (text : String) : Node :=
  node text []

/-- A childless node with a payload. -/
def leaf (kind text : String) : Node :=
  ⟨kind, some text, []⟩

/-- An identifier. -/
def identifier (name : String) : Node :=
  leaf "Identifier" name

/-- A literal, as Java writes it. -/
def literal (text : String) : Node :=
  leaf "Literal" text

/-- A line comment with its slashes. -/
def comment (text : String) : Node :=
  leaf "line_comment" text

/-- Nodes with a token between any two of them. -/
def separated (separator : String) (nodes : List Node) : List Node :=
  nodes.intersperse (token separator)

theorem separated_cons (separator : String) (first : Node) (more : List Node) :
    separated separator (first :: more) = first :: more.flatMap fun n => [token separator, n] := by
  induction more generalizing first with
  | nil => rfl
  | cons second more ih =>
    rw [separated, List.intersperse_cons_cons, ← separated, ih]
    rfl

/-- The identifiers of a dotted path with the dots between them. -/
def dotted (path : String) : List Node :=
  separated "." ((Text.segments path).map identifier)

/-- A qualified name such as `java.util.List`. -/
def qualifiedName (path : String) : Node :=
  node "qualifiedName" (dotted path)

/-- A class name, possibly dotted, without type arguments. -/
def classType (path : String) : Node :=
  node "classOrInterfaceType" (dotted path)

/-- Cuts the pairs of brackets off the end of a type; the characters are given in reverse. -/
def cutDims : List Char → List Char × Nat
  | ']' :: '[' :: rest => ((cutDims rest).1, (cutDims rest).2 + 1)
  | cs => (cs, 0)

/-- A type without its trailing pairs of brackets, and how many there were. -/
def splitDims (type : String) : String × Nat :=
  let (base, dims) := cutDims type.toList.reverse
  (String.ofList base.reverse, dims)

/-- A type: a primitive keyword or a dotted class name, with pairs of brackets behind it. -/
def type (text : String) : Node :=
  let (base, dims) := splitDims text
  let name :=
    if (Primitive.ofKeyword? base).isSome then node "primitiveType" [token base]
    else classType base
  node "type" (name :: (List.replicate dims [token "[", token "]"]).flatten)

/-- Types with commas between them. -/
def typeList (types : List String) : Node :=
  node "typeList" (separated "," (types.map type))

/-- Type parameters without bounds. -/
def typeParameters (names : List String) : Node :=
  node "typeParameters" <|
    [token "<"] ++
    separated "," (names.map fun name => node "typeParameter" [identifier name]) ++
    [token ">"]

/-- The words of an expression that are tokens though they look like names. -/
def expressionKeywords : List String :=
  ["this", "super", "null", "new", "true", "false"]

/-- One word of an expression: a keyword, a literal, a name, or an operator. -/
def expressionWord (word : String) : Node :=
  if expressionKeywords.contains word then token word
  else if word.toList.head?.any fun c => c.isDigit || c = '"' || c = '\'' then literal word
  else if Text.isName word then identifier word
  else token word

/-- An expression whose tokens are the words of a text. -/
def expression (source : String) : Node :=
  node "expression" ((Text.words source).map expressionWord)

/-- An argument list. -/
def arguments (sources : List String) : Node :=
  node "arguments" <|
    [token "("] ++
    (if sources.isEmpty then []
     else [node "expressionList" (separated "," (sources.map expression))]) ++
    [token ")"]

end Rubify.Phrase
