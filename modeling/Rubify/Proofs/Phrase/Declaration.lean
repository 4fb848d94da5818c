import Rubify.Proofs.Phrase.Statement

/-!
# Reading phrases: declarations

An outline describes a type in words: its name, its clauses and its members, some of which are types
again. Modifiers are keywords or annotations, fields have at least one variable, and only the last
parameter of a list is variadic; bodies consist of trees that are read as block statements. So every
outline has a phrase (`TypeOutline.node`), and the phrase is read back as the declaration that the
outline describes (`TypeOutline.read`).

Headline:
* **`reads_type`**: the phrase of an outline is read as the declaration it describes.
* **`readUnit_compilationUnit`**: so is a unit of outlines, behind any package and any imports.
-/

namespace Rubify.Phrase

open Grammar MonadWalk Reader Syntax Program

variable {n : Node} {rest : List Node}

/-! ## Parameters and bodies -/

/-- Parameters, each a type and a name. Only the last type can end in three dots. -/
structure Params where
  list : List (String × String)
  last : ∀ p ∈ list.dropLast, before? "..." p.1 = none

/-- A parameter as it is read. -/
def parameterOf (p : String × String) : Parameter :=
  match before? "..." p.1 with
  | some element => ⟨p.2, (typeRef element).addDims 1, true⟩
  | none => ⟨p.2, typeRef p.1, false⟩

/-- Parameters as they are read. -/
def Params.read (ps : Params) : List Parameter :=
  ps.list.map parameterOf

/-- A tree that is read as a block statement. -/
structure BodyStatement where
  tree : Node
  statements : List Statement
  reads : readTree (wrapped tree) (inside ["blockStatement"] fun c _ => blockStatementIn .ruby c) =
    .ok (statements, [])

/-- The trees of a body. -/
def bodyNodes (body : List BodyStatement) : List Node :=
  body.map BodyStatement.tree

/-- A body as it is read. -/
def bodyRead (body : List BodyStatement) : List Statement :=
  body.flatMap BodyStatement.statements

/-- A call of another constructor, of the same class or of the superclass. -/
structure Call where
  toThis : Bool
  arguments : List Source

/-- The keyword of a call. -/
def Call.word (c : Call) : String :=
  if c.toThis then "this" else "super"

/-- A call as it is read. -/
def Call.read (c : Call) : Syntax.Invocation :=
  ⟨c.toThis, c.arguments.map Source.expr⟩

theorem takes_body (body : List BodyStatement) :
    ∀ b ∈ body, ReadsAs (wrapped b.tree) b.statements :=
  fun b _ => takes_of_readTree b.reads

theorem blockStatements_bodyNodes (body : List BodyStatement) :
    blockStatements (bodyNodes body) = body.map fun b => wrapped b.tree := by
  rw [blockStatements, bodyNodes, List.map_map]
  rfl

theorem takes_block (body : List BodyStatement) :
    Takes (inside ["block"] fun c _ => blockIn .ruby c : Reader n (List Statement))
      (block (bodyNodes body) :: rest) (bodyRead body) rest :=
  takes_inside rfl fun _ => takes_blockIn (takes_body body) (blockStatements_bodyNodes body)

theorem parameterDecls_plain {text : String} (h : before? "..." text = none) (ident : String)
    (ps : List (String × String)) : parameterDecls ((text, ident) :: ps) =
      [node "formalParameterDecls"
        [node "variableModifiers" [], type text,
         node "formalParameterDeclsRest" (node "variableDeclaratorId" [identifier ident] ::
          (if (parameterDecls ps).isEmpty then [] else token "," :: parameterDecls ps))]] := by
  rw [parameterDecls, h]
  rfl

theorem parameterDecls_variadic {text element : String} (h : before? "..." text = some element)
    (ident : String) : parameterDecls [(text, ident)] =
      [node "formalParameterDecls"
        [node "variableModifiers" [], type element,
         node "formalParameterDeclsRest"
          [token "...", node "variableDeclaratorId" [identifier ident]]]] := by
  rw [parameterDecls, h]
  rfl

/-- Parameters hold those behind them. -/
theorem takes_parametersIn : ∀ (p : String × String) (ps : List (String × String)),
    (∀ q ∈ (p :: ps).dropLast, before? "..." q.1 = none) → ∃ c, parameterDecls (p :: ps) = [c] ∧
      c.isAmong ["formalParameterDecls"] = true ∧
      Takes (parametersIn .ruby c) c.children ((p :: ps).map parameterOf) []
  | (text, ident), [], _ => by
    cases h : before? "..." text with
    | none =>
      refine ⟨_, parameterDecls_plain h ident [], rfl, ?_⟩
      have hp : parameterOf (text, ident) = ⟨ident, typeRef text, false⟩ := by
        rw [parameterOf, h]
      rw [parametersIn, List.map_singleton, hp]
      refine takes_noVariableModifiers.bind ?_
      refine (takes_type text).bind ?_
      refine takes_inside rfl fun _ => ?_
      refine Takes.bind (takes_tryToken_false rfl) ?_
      refine (takes_declaratorId _ ident).bind ?_
      refine takes_if_no_token rfl ?_
      exact takes_pure.bind takes_pure
    | some element =>
      refine ⟨_, parameterDecls_variadic h ident, rfl, ?_⟩
      have hp : parameterOf (text, ident) = ⟨ident, (typeRef element).addDims 1, true⟩ := by
        rw [parameterOf, h]
      rw [parametersIn, List.map_singleton, hp]
      refine takes_noVariableModifiers.bind ?_
      refine (takes_type element).bind ?_
      refine takes_inside rfl fun _ => ?_
      refine Takes.bind (takes_tryToken rfl) ?_
      exact (takes_declaratorId _ ident).bind takes_pure
  | (text, ident), q :: ps, hlast => by
    have h : before? "..." text = none := hlast (text, ident) List.mem_cons_self
    obtain ⟨c, hc, hkind, htakes⟩ := takes_parametersIn q ps fun p hp =>
      hlast p (List.mem_cons_of_mem _ hp)
    refine ⟨_, parameterDecls_plain h ident (q :: ps), rfl, ?_⟩
    have hp : parameterOf (text, ident) = ⟨ident, typeRef text, false⟩ := by
      rw [parameterOf, h]
    rw [hc, parametersIn, List.map_cons, hp]
    refine takes_noVariableModifiers.bind ?_
    refine (takes_type text).bind ?_
    refine takes_inside rfl fun _ => ?_
    refine Takes.bind (takes_tryToken_false rfl) ?_
    refine (takes_declaratorId _ ident).bind ?_
    refine takes_if_token rfl ?_
    exact Takes.bind (takes_inside hkind fun _ => htakes) takes_pure

theorem takes_parameters (ps : Params) :
    Takes (Grammar.parameters .ruby : Reader n (List Parameter)) (formalParameters ps.list :: rest)
      ps.read rest := by
  obtain ⟨list, hlast⟩ := ps
  refine takes_inside rfl fun _ => ?_
  cases list with
  | nil =>
    refine Takes.bind (takes_token rfl) ?_
    refine Takes.bind (takes_optional_none rfl) ?_
    exact Takes.bind (takes_token rfl) takes_pure
  | cons p ps =>
    obtain ⟨c, hc, hkind, htakes⟩ := takes_parametersIn p ps hlast
    show Takes _ (token "(" :: (parameterDecls (p :: ps) ++ [token ")"])) _ _
    rw [hc]
    refine Takes.bind (takes_token rfl) ?_
    refine Takes.bind (takes_optional hkind fun _ => htakes) ?_
    exact Takes.bind (takes_token rfl) takes_pure

/-! ## Outlines -/

mutual

/-- A type in words. -/
inductive TypeOutline
  | classType (name : String) (generics : List String) (superclass : Option String)
      (interfaces : List String) (members : List MemberOutline)
  | enumType (name : String) (interfaces : List String) (constants : List ConstantOutline)
      (members : List MemberOutline)
  | interfaceType (name : String) (generics parents : List String)
      (members : List InterfaceOutline)

/-- A member of a class or enum in words. -/
inductive MemberOutline
  /-- At least one field, all of one type. -/
  | field (words : List Modifier) (type : String) (first : Variable) (more : List Variable)
  | method (words : List Modifier) (returns name : String) (params : Params)
      (body : Option (List BodyStatement))
  /-- A method with at least one type parameter. -/
  | genericMethod (words : List Modifier) (first : String) (more : List String)
      (returns name : String) (params : Params) (body : Option (List BodyStatement))
  | constructor (words : List Modifier) (name : String) (params : Params) (call : Option Call)
      (body : List BodyStatement)
  | staticBlock (body : List BodyStatement)
  | nested (words : List Modifier) (type : TypeOutline)

/-- A constant of an enum in words. -/
inductive ConstantOutline
  | mk (name : String) (arguments : List Source) (body : Option (List MemberOutline))

/-- A member of an interface in words. -/
inductive InterfaceOutline
  | method (returns name : String) (params : Params)
  | genericMethod (first : String) (more : List String) (returns name : String) (params : Params)
  /-- The name and value of the first constant, and those of the others. -/
  | constants (type name : String) (value : Source) (others : List (String × Source))
  | nested (words : List Modifier) (type : TypeOutline)

end

/-- The words of modifiers. -/
def wordsOf (words : List Modifier) : List String :=
  words.map Modifier.word

mutual

/-- The phrase of a type. -/
def TypeOutline.node : TypeOutline → Node
  | .classType name generics superclass interfaces members =>
    classDeclaration name generics superclass interfaces (memberNodes members)
  | .enumType name interfaces constants members =>
    enumDeclaration name interfaces (constantNodes constants) (memberNodes members)
  | .interfaceType name generics parents members =>
    interfaceDeclaration name generics parents (interfaceNodes members)

/-- The phrase of a member. -/
def MemberOutline.node : MemberOutline → Node
  | .field words type first more =>
    Phrase.field (wordsOf words) type ((first :: more).map Variable.phrase)
  | .method words returns name params body =>
    Phrase.method (wordsOf words) returns name params.list (body.map bodyNodes)
  | .genericMethod words first more returns name params body =>
    Phrase.genericMethod (wordsOf words) (first :: more) returns name params.list
      (body.map bodyNodes)
  | .constructor words name params call body =>
    constructorCalling (wordsOf words) name params.list (call.map Call.word)
      ((call.map Call.arguments).getD [] |>.map Source.text) (bodyNodes body)
  | .staticBlock body => Phrase.staticBlock (bodyNodes body)
  | .nested words type => memberType (wordsOf words) type.node

/-- The phrases of members. -/
def memberNodes : List MemberOutline → List Node
  | [] => []
  | m :: more => m.node :: memberNodes more

/-- The phrases of constants of an enum. -/
def constantNodes : List ConstantOutline → List Node
  | [] => []
  | ⟨name, arguments, body⟩ :: more =>
    Phrase.enumConstant name (arguments.map Source.text) (constantBodyNodes body) ::
      constantNodes more

/-- The phrases of the body of a constant. -/
def constantBodyNodes : Option (List MemberOutline) → Option (List Node)
  | none => none
  | some members => some (memberNodes members)

/-- The phrase of a member of an interface. -/
def InterfaceOutline.node : InterfaceOutline → Node
  | .method returns name params => Phrase.interfaceMethod returns name params.list
  | .genericMethod first more returns name params =>
    interfaceGenericMethod (first :: more) returns name params.list
  | .constants type name value others =>
    interfaceConstants type name value.text (others.map fun (other, source) => (other, source.text))
  | .nested words type => interfaceMemberType (wordsOf words) type.node

/-- The phrases of members of an interface. -/
def interfaceNodes : List InterfaceOutline → List Node
  | [] => []
  | m :: more => m.node :: interfaceNodes more

end

/-- Whether a keyword is among modifiers. -/
def has (words : List Modifier) (keyword : String) : Bool :=
  (keywordsOf words).contains keyword

/-- What a method returns. -/
def returnRef (text : String) : TypeRef :=
  if text = "void" then ⟨.void, 0⟩ else typeRef text

/-- The body of a method as it is read. Without one it is native if declared so, and abstract
otherwise. -/
def methodRead (words : List Modifier) : Option (List BodyStatement) → Syntax.MethodBody Statement
  | some body => .block (bodyRead body)
  | none => if has words "native" then .native else .abstract

mutual

/-- The declaration that an outline describes. -/
def TypeOutline.read (static : Bool) : TypeOutline → TypeDecl
  | .classType name generics superclass interfaces members =>
    .classType name static generics (superclass.map typeRef) (interfaces.map typeRef)
      ⟨[], readMembers members, []⟩
  | .enumType name interfaces constants members =>
    .enumType name (interfaces.map typeRef) (readConstants constants) ⟨[], readMembers members, []⟩
  | .interfaceType name generics parents members =>
    .interfaceType name generics (parents.map typeRef) ⟨[], readInterface members, []⟩

/-- A member as it is read. -/
def MemberOutline.read : MemberOutline → Member
  | .field words type first more =>
    .fields [] (has words "static") (has words "final")
      ((first :: more).map (Variable.declarator (typeRef type)))
  | .method words returns name params body =>
    .method ⟨[], name, [], params.read, returnRef returns⟩ (has words "static")
      (has words "synchronized") (methodRead words body)
  | .genericMethod words first more returns name params body =>
    .method ⟨[], name, first :: more, params.read, returnRef returns⟩ (has words "static")
      (has words "synchronized") (methodRead words body)
  | .constructor _ _ params call body =>
    .constructor [] [] params.read (call.map Call.read) (bodyRead body)
  | .staticBlock body => .initializer [] (bodyRead body)
  | .nested words type => .type [] (type.read (has words "static"))

/-- Members as they are read. -/
def readMembers : List MemberOutline → List Member
  | [] => []
  | m :: more => m.read :: readMembers more

/-- Constants of an enum as they are read. -/
def readConstants : List ConstantOutline → List (EnumConstant Member)
  | [] => []
  | ⟨name, arguments, body⟩ :: more =>
    ⟨[], name, arguments.map Source.expr, readConstantBody body⟩ :: readConstants more

/-- The body of a constant as it is read. -/
def readConstantBody : Option (List MemberOutline) → Option (TypeBody Member)
  | none => none
  | some members => some ⟨[], readMembers members, []⟩

/-- A member of an interface as it is read. -/
def InterfaceOutline.read : InterfaceOutline → InterfaceMember
  | .method returns name params => .method ⟨[], name, [], params.read, returnRef returns⟩
  | .genericMethod first more returns name params =>
    .method ⟨[], name, first :: more, params.read, returnRef returns⟩
  | .constants type name value others =>
    .constants [] (((name, value) :: others).map fun (constant, source) =>
      ⟨constant, typeRef type, some (.value source.expr)⟩)
  | .nested words type => .type [] (type.read (has words "static"))

/-- Members of an interface as they are read. -/
def readInterface : List InterfaceOutline → List InterfaceMember
  | [] => []
  | m :: more => m.read :: readInterface more

end

/-! ## Methods, constructors and fields -/

theorem takes_modifiers (words : List Modifier) :
    Takes (Grammar.modifiers .ruby : Reader n (List String)) (modifiers (wordsOf words) :: rest)
      (keywordsOf words) rest := by
  rw [modifiers, wordsOf, List.map_map]
  exact takes_modifierList (by decide) (by decide) words

theorem takes_signatureRest (head : MethodHead) (ps : Params)
    (hdims : Node.nextHas ["["] rest = false) (hthrows : Node.nextHas ["throws"] rest = false) :
    Takes (signatureRest .ruby [] head : Reader n Signature) (formalParameters ps.list :: rest)
      ⟨[], head.name, head.generics, ps.read, head.returns⟩ rest := by
  refine (takes_parameters ps).bind ?_
  refine (takes_no_dims hdims).bind ?_
  exact Takes.bind (takes_if_no_token hthrows takes_pure) takes_pure

theorem takes_returnType (text : String) :
    Takes (Grammar.returnType : Reader n TypeRef) (returnType text :: rest) (returnRef text)
      rest := by
  unfold returnType returnRef
  by_cases h : text = "void"
  · rw [if_pos h, if_pos h]
    exact takes_if_token rfl takes_pure
  · rw [if_neg h, if_neg h]
    exact takes_if_no_token rfl (takes_type text)

theorem takes_methodIn (words : List Modifier) (head : MethodHead) (kind : String) (ps : Params)
    (body : Option (List BodyStatement)) :
    Takes (methodIn .ruby [] (keywordsOf words) head (methodRest kind ps.list (body.map bodyNodes)))
      (methodRest kind ps.list (body.map bodyNodes)).children
      (.method ⟨[], head.name, head.generics, ps.read, head.returns⟩ (has words "static")
        (has words "synchronized") (methodRead words body)) [] := by
  rw [methodIn]
  cases body with
  | none =>
    refine (takes_signatureRest head ps rfl rfl).bind ?_
    refine takes_if_token rfl ?_
    exact takes_pure.bind takes_pure
  | some body =>
    refine (takes_signatureRest head ps rfl rfl).bind ?_
    refine takes_if_no_token rfl ?_
    exact Takes.bind (takes_inside rfl fun _ => (takes_block body).bind takes_pure) takes_pure

/-- The phrase of a call, if there is one. -/
def callNodes (call : Option Call) : List Node :=
  ((call.map Call.word).map fun word => node "explicitConstructorInvocation"
    [token word, arguments (((call.map Call.arguments).getD []).map Source.text), token ";"]).toList

theorem takes_invocation (call : Option Call)
    (hrest : Node.nextHas ["explicitConstructorInvocation"] rest = false) :
    Takes (invocation .ruby : Reader n (Option Syntax.Invocation)) (callNodes call ++ rest)
      (call.map Call.read) rest := by
  cases call with
  | none => exact takes_optional_none hrest
  | some c =>
    obtain ⟨toThis, args⟩ := c
    refine takes_optional rfl fun _ => ?_
    cases toThis with
    | true
    | false =>
      refine Takes.bind (takes_expect rfl) ?_
      refine (takes_arguments args).bind ?_
      exact Takes.bind (takes_token rfl) takes_pure

/-- No statement of a body is a call of another constructor. -/
theorem nextHas_body (body : List BodyStatement) :
    Node.nextHas ["explicitConstructorInvocation"]
      (blockStatements (bodyNodes body) ++ [token "\x7d"]) = false := by
  rw [blockStatements_bodyNodes]
  cases body with
  | nil => rfl
  | cons b more =>
    obtain ⟨-, hkind⟩ := Node.isAmong_iff.mp (takes_body (b :: more) b List.mem_cons_self).1
    exact Node.nextHas_of_kind (by simpa using hkind) (by decide) _

/-- What stands behind the name of a constructor. -/
def constructorRest (ps : Params) (call : Option Call) (body : List BodyStatement) : Node :=
  node "constructorDeclaratorRest"
    [formalParameters ps.list,
     node "constructorBody"
      ([token "\x7b"] ++ callNodes call ++ blockStatements (bodyNodes body) ++ [token "\x7d"])]

theorem takes_constructorIn (ps : Params) (call : Option Call) (body : List BodyStatement) :
    Takes (constructorIn .ruby [] [] (constructorRest ps call body))
      (constructorRest ps call body).children
      (.constructor [] [] ps.read (call.map Call.read) (bodyRead body)) [] := by
  rw [constructorIn]
  refine (takes_parameters ps).bind ?_
  refine Takes.bind (takes_if_no_token rfl takes_pure) ?_
  refine takes_inside rfl fun _ => ?_
  show Takes _ (([token "\x7b"] ++ callNodes call ++ blockStatements (bodyNodes body)) ++
    [token "\x7d"]) _ _
  rw [List.append_assoc, List.append_assoc, List.singleton_append]
  refine Takes.bind (takes_token rfl) ((takes_invocation call (nextHas_body body)).bind ?_)
  rw [blockStatements_bodyNodes]
  exact (takes_blockRest (takes_body body)).bind takes_pure

/-- A member with its modifiers. -/
theorem takes_member (words : List Modifier) {decl : List Node} {m : Member}
    (h : Takes (memberDeclIn .ruby [] (keywordsOf words) (node "memberDecl" decl))
      (node "memberDecl" decl).children m []) :
    Takes (memberIn .ruby (member (wordsOf words) decl)) (member (wordsOf words) decl).children m
      [] := by
  rw [memberIn]
  refine takes_takeComments.bind ?_
  refine takes_if_no_token rfl ?_
  refine takes_if_not rfl ?_
  refine (takes_modifiers words).bind ?_
  exact takes_inside rfl fun _ => h

theorem takes_field (words : List Modifier) (t : String) {vars : List Variable} (hne : vars ≠ []) :
    Takes (memberIn .ruby (field (wordsOf words) t (vars.map Variable.phrase)))
      (field (wordsOf words) t (vars.map Variable.phrase)).children
      (.fields [] (has words "static") (has words "final")
        (vars.map (Variable.declarator (typeRef t)))) [] := by
  refine takes_member words ?_
  rw [memberDeclIn]
  refine Takes.bind (takes_peekKind "memberDeclaration" rfl) ?_
  refine takes_inside rfl fun _ => ?_
  refine (takes_type t).bind ?_
  refine takes_if_next rfl ?_
  refine takes_inside rfl fun _ => ?_
  refine (takes_declarators _ hne).bind ?_
  exact Takes.bind (takes_token rfl) takes_pure

theorem takes_method (words : List Modifier) (returns ident : String) (ps : Params)
    (body : Option (List BodyStatement)) :
    Takes (memberIn .ruby (method (wordsOf words) returns ident ps.list (body.map bodyNodes)))
      (method (wordsOf words) returns ident ps.list (body.map bodyNodes)).children
      (.method ⟨[], ident, [], ps.read, returnRef returns⟩ (has words "static")
        (has words "synchronized") (methodRead words body)) [] := by
  refine takes_member words ?_
  rw [memberDeclIn, returnRef]
  by_cases h : returns = "void"
  · rw [if_pos h, if_pos h]
    refine Takes.bind (takes_peekKind "void" rfl) ?_
    refine Takes.bind (takes_token rfl) ?_
    refine (takes_identifier ident).bind ?_
    refine takes_inside rfl fun _ => ?_
    exact takes_methodIn words ⟨ident, [], ⟨.void, 0⟩⟩ _ ps body
  · rw [if_neg h, if_neg h]
    refine Takes.bind (takes_peekKind "memberDeclaration" rfl) ?_
    refine takes_inside rfl fun _ => ?_
    refine (takes_type returns).bind ?_
    refine takes_if_not rfl ?_
    refine takes_inside rfl fun _ => ?_
    refine (takes_identifier ident).bind ?_
    refine takes_inside rfl fun _ => ?_
    exact takes_methodIn words ⟨ident, [], typeRef returns⟩ _ ps body

theorem takes_genericMethod (words : List Modifier) {generics : List String} (hne : generics ≠ [])
    (returns ident : String) (ps : Params) (body : Option (List BodyStatement)) :
    Takes (memberIn .ruby (genericMethod (wordsOf words) generics returns ident ps.list
        (body.map bodyNodes)))
      (genericMethod (wordsOf words) generics returns ident ps.list (body.map bodyNodes)).children
      (.method ⟨[], ident, generics, ps.read, returnRef returns⟩ (has words "static")
        (has words "synchronized") (methodRead words body)) [] := by
  refine takes_member words ?_
  rw [memberDeclIn]
  refine Takes.bind (takes_peekKind "genericMethodOrConstructorDecl" rfl) ?_
  refine takes_inside rfl fun _ => ?_
  refine (takes_typeParameters hne).bind ?_
  refine takes_inside rfl fun _ => takes_if_not ?_ ?_
  · show Node.nextHas ["Identifier"] (returnType returns :: _) = false
    unfold returnType
    split <;> rfl
  · refine (takes_returnType returns).bind ?_
    refine (takes_identifier ident).bind ?_
    refine takes_inside rfl fun _ => ?_
    exact takes_methodIn words ⟨ident, generics, returnRef returns⟩ _ ps body

theorem takes_constructor (words : List Modifier) (ident : String) (ps : Params) (call : Option Call)
    (body : List BodyStatement) :
    Takes (memberIn .ruby (member (wordsOf words) [identifier ident, constructorRest ps call body]))
      (member (wordsOf words) [identifier ident, constructorRest ps call body]).children
      (.constructor [] [] ps.read (call.map Call.read) (bodyRead body)) [] := by
  refine takes_member words ?_
  rw [memberDeclIn]
  refine Takes.bind (takes_peekKind "Identifier" rfl) ?_
  refine (takes_identifier ident).bind ?_
  refine takes_inside rfl fun _ => ?_
  exact takes_constructorIn ps call body

theorem takes_staticBlock (body : List BodyStatement) :
    Takes (memberIn .ruby (staticBlock (bodyNodes body))) (staticBlock (bodyNodes body)).children
      (.initializer [] (bodyRead body)) [] := by
  rw [memberIn]
  refine takes_takeComments.bind ?_
  refine takes_if_no_token rfl ?_
  refine takes_if_next rfl ?_
  refine takes_if_token rfl ?_
  exact (takes_block body).bind takes_pure

/-! ## Members of interfaces -/

theorem takes_interfaceMethodRest (kind : String) (hnot : kind ≠ "line_comment") (head : MethodHead)
    (ps : Params) :
    Takes (Grammar.interfaceMethod .ruby kind [] head : Reader n InterfaceMember)
      (methodRest kind ps.list none :: rest)
      (.method ⟨[], head.name, head.generics, ps.read, head.returns⟩) rest := by
  refine takes_inside (Node.isAmong_of_kind rfl hnot) fun _ => ?_
  refine (takes_signatureRest head ps rfl rfl).bind ?_
  exact Takes.bind (takes_token rfl) takes_pure

theorem takes_interfaceMethod (returns ident : String) (ps : Params) :
    Takes (interfaceMemberIn .ruby (interfaceMethod returns ident ps.list))
      (interfaceMethod returns ident ps.list).children
      (.method ⟨[], ident, [], ps.read, returnRef returns⟩) [] := by
  by_cases h : returns = "void"
  · rw [interfaceMethod, returnRef, if_pos h, if_pos h, interfaceMemberIn]
    refine takes_takeComments.bind ?_
    refine takes_if_no_token rfl ?_
    refine (takes_modifiers []).bind ?_
    refine takes_inside rfl fun _ => ?_
    refine Takes.bind (takes_peekKind "void" rfl) ?_
    refine Takes.bind (takes_token rfl) ?_
    refine (takes_identifier ident).bind ?_
    exact takes_interfaceMethodRest _ (by decide) ⟨ident, [], ⟨.void, 0⟩⟩ ps
  · rw [interfaceMethod, returnRef, if_neg h, if_neg h, interfaceMemberIn]
    refine takes_takeComments.bind ?_
    refine takes_if_no_token rfl ?_
    refine (takes_modifiers []).bind ?_
    refine takes_inside rfl fun _ => ?_
    refine Takes.bind (takes_peekKind "interfaceMethodOrFieldDecl" rfl) ?_
    refine takes_inside rfl fun _ => ?_
    refine (takes_type returns).bind ?_
    refine (takes_identifier ident).bind ?_
    refine takes_inside rfl fun _ => ?_
    refine takes_if_next rfl ?_
    exact takes_interfaceMethodRest _ (by decide) ⟨ident, [], typeRef returns⟩ ps

theorem takes_interfaceGenericMethod {generics : List String} (hne : generics ≠ [])
    (returns ident : String) (ps : Params) :
    Takes (interfaceMemberIn .ruby (interfaceGenericMethod generics returns ident ps.list))
      (interfaceGenericMethod generics returns ident ps.list).children
      (.method ⟨[], ident, generics, ps.read, returnRef returns⟩) [] := by
  rw [interfaceMemberIn]
  refine takes_takeComments.bind ?_
  refine takes_if_no_token rfl ?_
  refine (takes_modifiers []).bind ?_
  refine takes_inside rfl fun _ => ?_
  refine Takes.bind (takes_peekKind "interfaceGenericMethodDecl" rfl) ?_
  refine takes_inside rfl fun _ => ?_
  refine (takes_typeParameters hne).bind ?_
  refine (takes_returnType returns).bind ?_
  refine (takes_identifier ident).bind ?_
  exact takes_interfaceMethodRest _ (by decide) ⟨ident, generics, returnRef returns⟩ ps

theorem takes_constantRest (t : TypeRef) (ident : String) (s : Source) :
    Takes (Grammar.constantRest .ruby ident t : Reader n Declarator) (constantRest s.text :: rest)
      ⟨ident, t, some (.value s.expr)⟩ rest := by
  refine takes_inside rfl fun _ => ?_
  refine Takes.bind (takes_no_dims rfl) ?_
  refine Takes.bind (takes_token rfl) ?_
  exact (takes_initializer s).bind takes_pure

theorem takes_interfaceConstants (t ident : String) (value : Source)
    (others : List (String × Source)) :
    Takes (interfaceMemberIn .ruby (interfaceConstants t ident value.text
        (others.map fun (other, source) => (other, source.text))))
      (interfaceConstants t ident value.text
        (others.map fun (other, source) => (other, source.text))).children
      (.constants [] (((ident, value) :: others).map fun (constant, source) =>
        ⟨constant, typeRef t, some (.value source.expr)⟩)) [] := by
  rw [interfaceMemberIn]
  refine takes_takeComments.bind ?_
  refine takes_if_no_token rfl ?_
  refine (takes_modifiers []).bind ?_
  refine takes_inside rfl fun _ => ?_
  refine Takes.bind (takes_peekKind "interfaceMethodOrFieldDecl" rfl) ?_
  refine takes_inside rfl fun _ => ?_
  refine (takes_type t).bind ?_
  refine (takes_identifier ident).bind ?_
  refine takes_inside rfl fun _ => ?_
  refine takes_if_not rfl ?_
  refine Takes.bind (takes_inside rfl fun _ => ?_) (Takes.bind (takes_token rfl) takes_pure)
  -- the first constant, and the others behind one comma each
  show Takes _ (constantRest value.text :: List.flatMap _ (others.map _)) _ _
  rw [List.flatMap_map, ← List.append_nil (others.flatMap _)]
  refine (takes_constantRest (typeRef t) ident value).bind ?_
  refine Takes.bind (takes_gather_behind (fun other _ _ _ => ?_) (by decide) rfl) takes_pure
  refine takes_inside rfl fun _ => ?_
  exact (takes_identifier other.1).bind (takes_constantRest (typeRef t) other.1 other.2)

/-! ## Types -/

/-- A keyword with types behind it, which need not be there. -/
theorem takes_typeClause {α : Type} {a : α} {after : List Node} (keyword : String)
    (types : List String) {f : List TypeRef → Reader n α} (hnot : keyword ≠ "line_comment")
    (hrest : Node.nextHas [keyword] rest = false)
    (hf : Takes (f (types.map typeRef)) rest a after) :
    Takes (tryToken keyword >>= fun found =>
      if found = true then Grammar.typeList >>= f else pure [] >>= f)
      (typeClause keyword types ++ rest) a after := by
  cases types with
  | nil => exact takes_if_no_token hrest (takes_pure.bind hf)
  | cons t more =>
    exact takes_if_token (Node.isToken_iff.mpr ⟨rfl, Node.isAmong_of_kind rfl hnot⟩)
      ((takes_typeList (List.cons_ne_nil t more)).bind hf)

/-- Members of a class that are read. -/
def MembersRead (members : List MemberOutline) : Prop :=
  ∀ m ∈ members, m.node.isAmong ["classBodyDeclaration"] = true ∧
    Takes (memberIn .ruby m.node) m.node.children m.read []

theorem memberNodes_eq (members : List MemberOutline) :
    memberNodes members = members.map MemberOutline.node := by
  induction members with
  | nil => rfl
  | cons m more ih => rw [memberNodes, ih, List.map_cons]

theorem readMembers_eq (members : List MemberOutline) :
    readMembers members = members.map MemberOutline.read := by
  induction members with
  | nil => rfl
  | cons m more ih => rw [readMembers, ih, List.map_cons]

theorem takes_members {members : List MemberOutline} (h : MembersRead members)
    (hrest : Node.nextHas ["classBodyDeclaration"] rest = false) :
    Takes (many "classBodyDeclaration" fun c _ => memberIn .ruby c : Reader n (List Member))
      (memberNodes members ++ rest) (readMembers members) rest := by
  rw [memberNodes_eq, readMembers_eq]
  exact takes_many (fun m hm => (h m hm).1) (fun m hm _ => (h m hm).2) hrest

theorem takes_classBodyIn {members : List MemberOutline} (h : MembersRead members) :
    Takes (classBodyIn .ruby (classBody (memberNodes members)))
      (classBody (memberNodes members)).children ⟨[], readMembers members, []⟩ [] := by
  rw [classBodyIn]
  show Takes _ (token "\x7b" :: (memberNodes members ++ [token "\x7d"])) _ _
  refine Takes.bind (takes_token rfl) ?_
  refine takes_takeComments.bind ?_
  refine (takes_members h rfl).bind ?_
  refine Takes.bind (takes_token rfl) ?_
  exact takes_takeComments.bind takes_pure

theorem takes_class (static : Bool) (ident : String) (generics : List String)
    (superclass : Option String) (interfaces : List String) {members : List MemberOutline}
    (h : MembersRead members) :
    Takes (classIn .ruby static (classDeclaration ident generics superclass interfaces
        (memberNodes members)))
      (classDeclaration ident generics superclass interfaces (memberNodes members)).children
      (.classType ident static generics (superclass.map typeRef) (interfaces.map typeRef)
        ⟨[], readMembers members, []⟩) [] := by
  rw [classIn]
  refine takes_if_not rfl (takes_inside rfl fun _ => ?_)
  simp only [node, List.append_assoc, List.cons_append, List.nil_append]
  refine Takes.bind (takes_token rfl) ?_
  refine (takes_identifier ident).bind ?_
  refine (takes_optionalTypeParameters generics ?_).bind ?_
  · cases superclass <;> cases interfaces <;> rfl
  · have hbody {n : Node} : Takes (inside ["classBody"] fun b _ => classBodyIn .ruby b :
        Reader n (TypeBody Member)) [classBody (memberNodes members)] ⟨[], readMembers members, []⟩
        [] := takes_inside rfl fun _ => takes_classBodyIn h
    cases superclass with
    | none =>
      refine takes_if_no_token ?_ ?_
      · cases interfaces <;> rfl
      · refine takes_pure.bind ?_
        exact takes_typeClause "implements" interfaces (by decide) rfl (hbody.bind takes_pure)
    | some text =>
      refine takes_if_token rfl ?_
      refine ((takes_type text).map some).bind ?_
      exact takes_typeClause "implements" interfaces (by decide) rfl (hbody.bind takes_pure)

/-- The phrase of a constant. -/
def ConstantOutline.node : ConstantOutline → Node
  | ⟨name, arguments, body⟩ =>
    Phrase.enumConstant name (arguments.map Source.text) (constantBodyNodes body)

/-- A constant as it is read. -/
def ConstantOutline.read : ConstantOutline → EnumConstant Member
  | ⟨name, arguments, body⟩ => ⟨[], name, arguments.map Source.expr, readConstantBody body⟩

theorem constantNodes_eq (constants : List ConstantOutline) :
    constantNodes constants = constants.map ConstantOutline.node := by
  induction constants with
  | nil => rfl
  | cons c more ih =>
    obtain ⟨ident, args, body⟩ := c
    rw [constantNodes, ih, List.map_cons, ConstantOutline.node]

theorem readConstants_eq (constants : List ConstantOutline) :
    readConstants constants = constants.map ConstantOutline.read := by
  induction constants with
  | nil => rfl
  | cons c more ih =>
    obtain ⟨ident, args, body⟩ := c
    rw [readConstants, ih, List.map_cons, ConstantOutline.read]

theorem takes_enumConstantIn (ident : String) (args : List Source)
    (body : Option (List MemberOutline)) (h : ∀ members ∈ body, MembersRead members) :
    Takes (enumConstantIn .ruby (ConstantOutline.node ⟨ident, args, body⟩))
      (ConstantOutline.node ⟨ident, args, body⟩).children (ConstantOutline.read ⟨ident, args, body⟩)
      [] := by
  have hbody {n : Node} : Takes (Reader.optional "classBody" fun c _ => classBodyIn .ruby c :
      Reader n (Option (TypeBody Member))) ((constantBodyNodes body).map classBody).toList
      (readConstantBody body) [] := by
    cases body with
    | none => exact takes_optional_none rfl
    | some members => exact takes_optional rfl fun _ => takes_classBodyIn (h members rfl)
  rw [enumConstantIn, ConstantOutline.node, ConstantOutline.read, enumConstant]
  refine takes_takeComments.bind ?_
  refine Takes.bind (takes_gather_nil (takes_if_not rfl takes_pure)) ?_
  refine (takes_identifier ident).bind ?_
  cases args with
  | nil =>
    refine takes_if_not ?_ (takes_pure.bind (hbody.bind takes_pure))
    cases body <;> rfl
  | cons a more =>
    exact takes_if_next rfl ((takes_arguments (a :: more)).bind (hbody.bind takes_pure))

/-- Constants of an enum that are read. -/
def ConstantsRead (constants : List ConstantOutline) : Prop :=
  ∀ c ∈ constants, Takes (enumConstantIn .ruby c.node) c.node.children c.read []

/-- The constants of an enum, if there are any. -/
theorem takes_enumConstants {constants : List ConstantOutline} (h : ConstantsRead constants)
    (hrest : Node.nextHas ["enumConstants"] rest = false) :
    Takes (Reader.optional "enumConstants" fun _ _ => Reader.separated "," <|
        inside ["enumConstant"] fun k _ => enumConstantIn .ruby k :
          Reader n (Option (List (EnumConstant Member))))
      ((if (constantNodes constants).isEmpty then []
        else [node "enumConstants" (separated "," (constantNodes constants))]) ++ rest)
      (if constants.isEmpty then none else some (readConstants constants)) rest := by
  rw [constantNodes_eq, readConstants_eq]
  cases constants with
  | nil => exact takes_optional_none hrest
  | cons c more =>
    refine takes_optional rfl fun _ => ?_
    show Takes _ (separated "," ((c :: more).map ConstantOutline.node)) _ _
    refine takes_separated_all (List.cons_ne_nil c more) (fun k hk _ _ => ?_) (by decide)
    obtain ⟨ident, args, body⟩ := k
    exact takes_inside rfl fun _ => h _ hk

/-- The members of an enum, if there are any. -/
theorem takes_enumMembers {members : List MemberOutline} (h : MembersRead members)
    (hrest : Node.nextHas ["enumBodyDeclarations"] rest = false) :
    Takes (Reader.optional "enumBodyDeclarations" fun _ _ => do
        Reader.token ";"
        many "classBodyDeclaration" fun m _ => memberIn .ruby m : Reader n (Option (List Member)))
      ((if (memberNodes members).isEmpty then []
        else [node "enumBodyDeclarations" (token ";" :: memberNodes members)]) ++ rest)
      (if members.isEmpty then none else some (readMembers members)) rest := by
  cases members with
  | nil => exact takes_optional_none hrest
  | cons m more =>
    refine takes_optional rfl fun _ => Takes.bind (takes_token rfl) ?_
    show Takes _ (memberNodes (m :: more)) _ _
    rw [← List.append_nil (memberNodes (m :: more))]
    exact takes_members h rfl

theorem takes_enum (static : Bool) (ident : String) (interfaces : List String)
    {constants : List ConstantOutline} {members : List MemberOutline} (hc : ConstantsRead constants)
    (hm : MembersRead members) :
    Takes (classIn .ruby static (enumDeclaration ident interfaces (constantNodes constants)
        (memberNodes members)))
      (enumDeclaration ident interfaces (constantNodes constants) (memberNodes members)).children
      (.enumType ident (interfaces.map typeRef) (readConstants constants)
        ⟨[], readMembers members, []⟩) [] := by
  rw [classIn]
  refine takes_if_next rfl (takes_inside rfl fun _ => ?_)
  rw [enumIn]
  simp only [node, List.append_assoc, List.cons_append, List.nil_append]
  refine Takes.bind (takes_token rfl) ?_
  refine (takes_identifier ident).bind ?_
  refine takes_typeClause "implements" interfaces (by decide) rfl ?_
  refine takes_inside rfl fun _ => ?_
  refine Takes.bind (takes_token rfl) ?_
  refine takes_takeComments.bind ?_
  refine (takes_enumConstants hc ?_).bind ?_
  · cases members <;> rfl
  refine Takes.bind (takes_tryToken_false ?_) ?_
  · cases members <;> rfl
  refine (takes_enumMembers hm rfl).bind ?_
  refine Takes.bind (takes_token rfl) ?_
  refine takes_takeComments.bind ?_
  refine Takes.result takes_pure ?_
  cases constants <;> cases members <;> rfl

/-- Members of an interface that are read. -/
def InterfaceRead (members : List InterfaceOutline) : Prop :=
  ∀ m ∈ members, m.node.isAmong ["interfaceBodyDeclaration"] = true ∧
    Takes (interfaceMemberIn .ruby m.node) m.node.children m.read []

theorem interfaceNodes_eq (members : List InterfaceOutline) :
    interfaceNodes members = members.map InterfaceOutline.node := by
  induction members with
  | nil => rfl
  | cons m more ih => rw [interfaceNodes, ih, List.map_cons]

theorem readInterface_eq (members : List InterfaceOutline) :
    readInterface members = members.map InterfaceOutline.read := by
  induction members with
  | nil => rfl
  | cons m more ih => rw [readInterface, ih, List.map_cons]

theorem takes_interfaceMembers {members : List InterfaceOutline} (h : InterfaceRead members)
    (hrest : Node.nextHas ["interfaceBodyDeclaration"] rest = false) :
    Takes (many "interfaceBodyDeclaration" fun c _ => interfaceMemberIn .ruby c :
      Reader n (List InterfaceMember)) (interfaceNodes members ++ rest) (readInterface members)
      rest := by
  rw [interfaceNodes_eq, readInterface_eq]
  exact takes_many (fun m hm => (h m hm).1) (fun m hm _ => (h m hm).2) hrest

theorem takes_interface (ident : String) (generics parents : List String)
    {members : List InterfaceOutline} (h : InterfaceRead members) :
    Takes (interfaceIn .ruby (interfaceDeclaration ident generics parents (interfaceNodes members)))
      (interfaceDeclaration ident generics parents (interfaceNodes members)).children
      (.interfaceType ident generics (parents.map typeRef) ⟨[], readInterface members, []⟩) [] := by
  rw [interfaceIn]
  refine takes_if_not rfl (takes_inside rfl fun _ => ?_)
  simp only [node, List.append_assoc, List.cons_append, List.nil_append]
  refine Takes.bind (takes_token rfl) ?_
  refine (takes_identifier ident).bind ?_
  refine (takes_optionalTypeParameters generics ?_).bind ?_
  · cases parents <;> rfl
  refine takes_typeClause "extends" parents (by decide) rfl ?_
  refine Takes.bind (takes_inside rfl fun _ => ?_) takes_pure
  refine Takes.bind (takes_token rfl) ?_
  refine takes_takeComments.bind ?_
  refine (takes_interfaceMembers h rfl).bind ?_
  refine Takes.bind (takes_token rfl) ?_
  exact takes_takeComments.bind takes_pure

/-- A type that is read, either as a class or an enum or as an interface. -/
inductive TypeReads (t : TypeOutline) : Prop
  | classType (kind : t.node.kind = "classDeclaration")
      (takes : ∀ static, Takes (classIn .ruby static t.node) t.node.children (t.read static) [])
  | interfaceType (kind : t.node.kind = "interfaceDeclaration")
      (takes : ∀ static, Takes (interfaceIn .ruby t.node) t.node.children (t.read static) [])

theorem takes_nested (words : List Modifier) {t : TypeOutline} (h : TypeReads t) :
    Takes (memberIn .ruby (memberType (wordsOf words) t.node))
      (memberType (wordsOf words) t.node).children (.type [] (t.read (has words "static"))) [] := by
  refine takes_member words ?_
  rw [memberDeclIn]
  cases h with
  | classType hkind htakes
  | interfaceType hkind htakes =>
    refine Takes.bind (takes_peekKind _ (Node.nextKind?_of_kind hkind (by decide) [])) ?_
    refine takes_inside (Node.isAmong_of_kind hkind (by decide)) fun _ => ?_
    exact (htakes _).bind takes_pure

theorem takes_interfaceNested (words : List Modifier) {t : TypeOutline} (h : TypeReads t) :
    Takes (interfaceMemberIn .ruby (interfaceMemberType (wordsOf words) t.node))
      (interfaceMemberType (wordsOf words) t.node).children (.type [] (t.read (has words "static")))
      [] := by
  rw [interfaceMemberIn]
  refine takes_takeComments.bind ?_
  refine takes_if_no_token rfl ?_
  refine (takes_modifiers words).bind ?_
  refine takes_inside rfl fun _ => ?_
  cases h with
  | classType hkind htakes
  | interfaceType hkind htakes =>
    refine Takes.bind (takes_peekKind _ (Node.nextKind?_of_kind hkind (by decide) [])) ?_
    refine takes_inside (Node.isAmong_of_kind hkind (by decide)) fun _ => ?_
    exact (htakes _).bind takes_pure

-- The induction is on the outline. Each list of parts has a theorem of its own.
mutual

theorem reads_type : ∀ t : TypeOutline, TypeReads t
  | .classType ident generics superclass interfaces members => by
    refine .classType (by rw [TypeOutline.node]; rfl) fun static => ?_
    rw [TypeOutline.node, TypeOutline.read]
    exact takes_class static ident generics superclass interfaces (reads_members members)
  | .enumType ident interfaces constants members => by
    refine .classType (by rw [TypeOutline.node]; rfl) fun static => ?_
    rw [TypeOutline.node, TypeOutline.read]
    exact takes_enum static ident interfaces (reads_constants constants) (reads_members members)
  | .interfaceType ident generics parents members => by
    refine .interfaceType (by rw [TypeOutline.node]; rfl) fun static => ?_
    rw [TypeOutline.node, TypeOutline.read]
    exact takes_interface ident generics parents (reads_interface members)

theorem reads_member : ∀ m : MemberOutline, m.node.isAmong ["classBodyDeclaration"] = true ∧
    Takes (memberIn .ruby m.node) m.node.children m.read []
  | .field words type first more => by
    rw [MemberOutline.node, MemberOutline.read]
    exact ⟨rfl, takes_field words type (List.cons_ne_nil first more)⟩
  | .method words returns ident params body => by
    rw [MemberOutline.node, MemberOutline.read]
    exact ⟨rfl, takes_method words returns ident params body⟩
  | .genericMethod words first more returns ident params body => by
    rw [MemberOutline.node, MemberOutline.read]
    exact ⟨rfl, takes_genericMethod words (List.cons_ne_nil first more) returns ident params body⟩
  | .constructor words ident params call body => by
    rw [MemberOutline.node, MemberOutline.read]
    exact ⟨rfl, takes_constructor words ident params call body⟩
  | .staticBlock body => by
    rw [MemberOutline.node, MemberOutline.read]
    exact ⟨rfl, takes_staticBlock body⟩
  | .nested words type => by
    rw [MemberOutline.node, MemberOutline.read]
    exact ⟨rfl, takes_nested words (reads_type type)⟩

theorem reads_members : ∀ members : List MemberOutline, MembersRead members
  | [], m, h => absurd h List.not_mem_nil
  | m :: more, k, h => by
    rcases List.mem_cons.mp h with heq | h
    · rw [heq]
      exact reads_member m
    · exact reads_members more k h

theorem reads_constants : ∀ constants : List ConstantOutline, ConstantsRead constants
  | [], c, h => absurd h List.not_mem_nil
  | ⟨ident, args, none⟩ :: more, k, h => by
    rcases List.mem_cons.mp h with heq | h
    · rw [heq]
      exact takes_enumConstantIn ident args none fun members hm => by cases hm
    · exact reads_constants more k h
  | ⟨ident, args, some members⟩ :: more, k, h => by
    rcases List.mem_cons.mp h with heq | h
    · rw [heq]
      exact takes_enumConstantIn ident args (some members) fun _ hm => by
        cases hm
        exact reads_members members
    · exact reads_constants more k h

theorem reads_interfaceMember : ∀ m : InterfaceOutline,
    m.node.isAmong ["interfaceBodyDeclaration"] = true ∧
      Takes (interfaceMemberIn .ruby m.node) m.node.children m.read []
  | .method returns ident params => by
    rw [InterfaceOutline.node, InterfaceOutline.read]
    exact ⟨by rfl, takes_interfaceMethod returns ident params⟩
  | .genericMethod first more returns ident params => by
    rw [InterfaceOutline.node, InterfaceOutline.read]
    exact ⟨rfl, takes_interfaceGenericMethod (List.cons_ne_nil first more) returns ident params⟩
  | .constants type ident value others => by
    rw [InterfaceOutline.node, InterfaceOutline.read]
    exact ⟨rfl, takes_interfaceConstants type ident value others⟩
  | .nested words type => by
    rw [InterfaceOutline.node, InterfaceOutline.read]
    exact ⟨rfl, takes_interfaceNested words (reads_type type)⟩

theorem reads_interface : ∀ members : List InterfaceOutline, InterfaceRead members
  | [], m, h => absurd h List.not_mem_nil
  | m :: more, k, h => by
    rcases List.mem_cons.mp h with heq | h
    · rw [heq]
      exact reads_interfaceMember m
    · exact reads_interface more k h

end

/-! ## Units -/

/-- A type with its modifiers, as it is read. -/
theorem takes_typeDeclaration (words : List Modifier) (t : TypeOutline) :
    Takes (inside ["classOrInterfaceDeclaration"] fun c _ => declarationIn .ruby c :
        Reader n (List String × TypeDecl))
      (typeDeclaration (wordsOf words) t.node :: rest) ([], t.read (has words "static")) rest := by
  refine takes_inside rfl fun _ => ?_
  rw [declarationIn]
  have hwords {n : Node} {rest : List Node} :
      Takes (modifierList .ruby "classOrInterfaceModifiers" "classOrInterfaceModifier" :
          Reader n (List String))
        (node "classOrInterfaceModifiers"
          ((wordsOf words).map (modifier "classOrInterfaceModifier")) :: rest)
        (keywordsOf words) rest := by
    rw [wordsOf, List.map_map]
    exact takes_modifierList (by decide) (by decide) words
  refine takes_takeComments.bind ?_
  refine hwords.bind ?_
  cases reads_type t with
  | classType hkind htakes =>
    refine takes_if_next (Node.nextHas_of_kind hkind (by decide) []) ?_
    refine Takes.bind (takes_inside (Node.isAmong_of_kind hkind (by decide)) fun _ => ?_) takes_pure
    exact htakes _
  | interfaceType hkind htakes =>
    refine takes_if_not (Node.nextHas_of_kind hkind (by decide) []) ?_
    refine takes_if_next (Node.nextHas_of_kind hkind (by decide) []) ?_
    refine Takes.bind (takes_inside (Node.isAmong_of_kind hkind (by decide)) fun _ => ?_) takes_pure
    exact htakes _

/-- An import as it is read. -/
def importOf (text : String) : Import :=
  let (static, path) :=
    match Text.after? "static ".toList text.toList with
    | some rest => (true, String.ofList rest)
    | none => (false, text)
  match before? ".*" path with
  | some package => ⟨package, static, true⟩
  | none => ⟨path, static, false⟩

theorem takes_importIn (text : String) :
    Takes (importIn : Reader n Import) (importDeclaration text).children (importOf text) [] := by
  unfold importDeclaration importOf importIn
  cases Text.after? "static ".toList text.toList with
  | none =>
    dsimp only
    cases before? ".*" text with
    | none =>
      refine Takes.bind (takes_token rfl) ?_
      refine Takes.bind (takes_tryToken_false rfl) ?_
      refine (takes_qualifiedName text).bind ?_
      refine Takes.bind (takes_tryToken_false rfl) ?_
      exact Takes.bind (takes_token rfl) takes_pure
    | some package =>
      refine Takes.bind (takes_token rfl) ?_
      refine Takes.bind (takes_tryToken_false rfl) ?_
      refine (takes_qualifiedName package).bind ?_
      refine Takes.bind (takes_tryToken rfl) ?_
      refine Takes.bind (takes_token rfl) ?_
      exact Takes.bind (takes_token rfl) takes_pure
  | some path =>
    dsimp only
    cases before? ".*" (String.ofList path) with
    | none =>
      refine Takes.bind (takes_token rfl) ?_
      refine Takes.bind (takes_tryToken rfl) ?_
      refine (takes_qualifiedName _).bind ?_
      refine Takes.bind (takes_tryToken_false rfl) ?_
      exact Takes.bind (takes_token rfl) takes_pure
    | some package =>
      refine Takes.bind (takes_token rfl) ?_
      refine Takes.bind (takes_tryToken rfl) ?_
      refine (takes_qualifiedName package).bind ?_
      refine Takes.bind (takes_tryToken rfl) ?_
      refine Takes.bind (takes_token rfl) ?_
      exact Takes.bind (takes_token rfl) takes_pure

theorem kind_importDeclaration (text : String) :
    (importDeclaration text).kind = "importDeclaration" := by
  unfold importDeclaration
  cases Text.after? "static ".toList text.toList <;> rfl

theorem takes_package (package : Option String)
    (hrest : Node.nextHas ["packageDeclaration"] rest = false) :
    Takes (Reader.optional "packageDeclaration" fun _ _ => do
        Reader.token "package"
        let path ← Grammar.qualifiedName
        Reader.token ";"
        return path : Reader n (Option String))
      ((package.map fun path =>
        node "packageDeclaration" [token "package", qualifiedName path, token ";"]).toList ++ rest)
      package rest := by
  cases package with
  | none => exact takes_optional_none hrest
  | some path =>
    refine takes_optional rfl fun _ => ?_
    refine Takes.bind (takes_token rfl) ?_
    refine (takes_qualifiedName path).bind ?_
    exact Takes.bind (takes_token rfl) takes_pure

/-- The types of a unit, which end it. -/
theorem takes_types (types : List (List Modifier × TypeOutline)) :
    Takes (many "typeDeclaration" fun _ _ => do
        if ← MonadWalk.tryToken ";" then return none
        else some <$> inside ["classOrInterfaceDeclaration"] fun c _ => declarationIn .ruby c :
          Reader n (List (Option (List String × TypeDecl))))
      (types.map fun t => node "typeDeclaration" [typeDeclaration (wordsOf t.1) t.2.node])
      (types.map fun t => some ([], t.2.read (has t.1 "static"))) [] := by
  exact takes_many_all (fun _ _ => rfl) (fun t _ _ => takes_if_no_token rfl
    ((takes_typeDeclaration t.1 t.2).map some))

theorem nextHas_types {kind : String} (hkind : kind ≠ "typeDeclaration")
    (types : List (List Modifier × TypeOutline)) :
    Node.nextHas [kind] (types.map fun t =>
      node "typeDeclaration" [typeDeclaration (wordsOf t.1) t.2.node]) = false := by
  cases types with
  | nil => rfl
  | cons t more =>
    have ht : (node "typeDeclaration" [typeDeclaration (wordsOf t.1) t.2.node]).kind =
        "typeDeclaration" := rfl
    rw [List.map_cons, Node.nextHas_of_kind ht (by decide)]
    simp [hkind.symm]

theorem nextHas_imports (imports : List String) (types : List (List Modifier × TypeOutline)) :
    Node.nextHas ["packageDeclaration"] (imports.map importDeclaration ++ types.map fun t =>
      node "typeDeclaration" [typeDeclaration (wordsOf t.1) t.2.node]) = false := by
  cases imports with
  | nil => exact nextHas_types (by decide) types
  | cons text more =>
    rw [List.map_cons, List.cons_append,
      Node.nextHas_of_kind (kind_importDeclaration text) (by decide)]
    decide

/-- A unit as it is read. -/
def unitRead (package : Option String) (imports : List String)
    (types : List (List Modifier × TypeOutline)) : CompilationUnit :=
  ⟨package, [], imports.map importOf, types.map fun t => ([], t.2.read (has t.1 "static")), []⟩

theorem takes_unit (package : Option String) (imports : List String)
    (types : List (List Modifier × TypeOutline)) :
    Takes (Grammar.unit .ruby : Reader n CompilationUnit)
      (compilationUnit package imports
        (types.map fun t => typeDeclaration (wordsOf t.1) t.2.node) :: rest)
      (unitRead package imports types) rest := by
  have htypes : (types.map fun t =>
      some (([] : List String), t.2.read (has t.1 "static"))).filterMap id =
      types.map fun t => ([], t.2.read (has t.1 "static")) := by
    simp [List.filterMap_map]
  refine takes_inside rfl fun _ => ?_
  simp only [compilationUnit, node, List.append_assoc, List.map_map, Function.comp_def]
  rw [unitRead, ← htypes]
  refine (takes_package package (nextHas_imports imports types)).bind ?_
  refine takes_takeComments.bind ?_
  refine (takes_many (fun text _ => ?_) (fun text _ _ => takes_importIn text)
    (nextHas_types (by decide) types)).bind ?_
  · exact Node.isAmong_of_kind (kind_importDeclaration text) (by decide)
  · exact (takes_types types).bind takes_pure

/-- **A unit of outlines is read** as the declarations that they describe. -/
theorem readUnit_compilationUnit (package : Option String) (imports : List String)
    (types : List (List Modifier × TypeOutline)) :
    readUnit .ruby (compilationUnit package imports
        (types.map fun t => typeDeclaration (wordsOf t.1) t.2.node)) =
      .ok (unitRead package imports types) := by
  rw [readUnit, readTree_of_takes (takes_unit package imports types)]
  rfl

end Rubify.Phrase
