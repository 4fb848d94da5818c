import Rubify.Grammar.Unit
import Rubify.Proofs.Comments.Held
import Rubify.Proofs.Comments.Reader

/-!
# Reading keeps every comment

Each reader of the grammar hands every comment it passes to exactly one place. Types, expressions,
modifiers and parameters hold none and leave them for whoever takes next; members, statements and
constants take those in front of them; a body keeps those before its first and behind its last
member. What nobody took when the tree ends is the unit's `trailing`.

Headline:
* **`perm_commentTexts_readUnit`**: the comments of a unit as read are those of the tree, each as
  often.
-/

namespace Rubify

variable {n : Node} {α β : Type}

namespace Grammar

open MonadWalk Reader

variable {t : String} {given : List String}

/-! ## Types and names -/

theorem quiet_dims : Quiet t (dims : Reader n Nat) := by
  refine Quiet.bind (quiet_gather ?_) fun _ => quiet_pure
  refine quiet_tryToken.bind fun found => ?_
  cases found with
  | true => exact quiet_token.bind fun _ => quiet_pure
  | false => exact quiet_pure

mutual

theorem quiet_typeIn (n : Node) : Quiet t (typeIn n) := by
  rw [typeIn]
  refine quiet_nextIs.bind fun _ => ?_
  refine keeps_join ?_ ?_ fun base => ?_
  · refine keeps_inside fun _ _ => ?_
    exact quiet_expect.bind fun _ => quiet_pure
  · refine keeps_inside fun c hc => ?_
    have := Node.count_lt_of_mem hc
    exact quiet_classTypeIn c
  · exact quiet_dims.bind fun _ => quiet_pure
termination_by n.count

theorem quiet_classTypeIn (n : Node) : Quiet t (classTypeIn n) := by
  rw [classTypeIn]
  refine Quiet.bind (quiet_separated ?_) fun _ => quiet_pure
  refine quiet_name.bind fun segment => ?_
  refine Quiet.bind (quiet_optional fun c hc => ?_) fun _ => quiet_pure
  have := Node.count_lt_of_mem hc
  exact quiet_typeArgumentsIn c
termination_by n.count

theorem quiet_typeArgumentsIn (n : Node) : Quiet t (typeArgumentsIn n) := by
  rw [typeArgumentsIn]
  refine quiet_token.bind fun _ => ?_
  refine Quiet.bind (quiet_separated (keeps_inside fun c hc => ?_)) fun _ => quiet_token
  have hc := Node.count_lt_of_mem hc
  refine quiet_tryToken.bind fun found => ?_
  have rest : ∀ bounded : Bool, Quiet t (if bounded = true then do
      let _ ← inside ["type"] fun t ht => typeIn t
      pure ()
      else pure () : Reader c Unit) := by
    intro bounded
    cases bounded with
    | true =>
      refine Quiet.bind (keeps_inside fun t ht => ?_) fun _ => quiet_pure
      have ht := Node.count_lt_of_mem ht
      exact quiet_typeIn t
    | false => exact quiet_pure
  cases found with
  | true => exact quiet_tryMatch.bind fun _ => quiet_pure.bind rest
  | false => exact quiet_pure.bind rest
termination_by n.count

end

theorem quiet_type : Quiet t (type : Reader n _) := keeps_inside fun c _ => quiet_typeIn c

theorem quiet_typeList : Quiet t (typeList : Reader n _) :=
  keeps_inside fun _ _ => quiet_separated quiet_type

theorem quiet_typeParameters : Quiet t (typeParameters : Reader n _) := by
  refine keeps_inside fun _ _ => ?_
  refine quiet_token.bind fun _ => ?_
  refine Quiet.bind (quiet_separated ?_) fun _ => ?_
  · refine keeps_inside fun _ _ => ?_
    refine quiet_name.bind fun parameter => ?_
    refine quiet_tryToken.bind fun found => ?_
    cases found with
    | true =>
      exact Quiet.bind (keeps_inside fun _ _ => quiet_separated quiet_type) fun _ => quiet_pure
    | false => exact quiet_pure
  · exact quiet_token.bind fun _ => quiet_pure

theorem quiet_optionalTypeParameters : Quiet t (optionalTypeParameters : Reader n _) := by
  refine quiet_nextIs.bind fun next => ?_
  cases next with
  | true => exact quiet_typeParameters
  | false => exact quiet_pure

theorem quiet_qualifiedName : Quiet t (qualifiedName : Reader n _) :=
  keeps_inside fun _ _ => Quiet.bind (quiet_separated quiet_name) fun _ => quiet_pure

theorem quiet_throws : Quiet t (throws : Reader n _) := by
  refine quiet_tryToken.bind fun found => ?_
  cases found with
  | true =>
    exact Quiet.bind (keeps_inside fun _ _ => quiet_separated quiet_qualifiedName)
      fun _ => quiet_pure
  | false => exact quiet_pure

/-! ## Expressions -/

theorem quiet_tokensIn (n : Node) : Quiet t (tokensIn n) := by
  rw [tokensIn]
  refine Quiet.bind (quiet_gather (quiet_peek.bind fun next => ?_)) fun _ => quiet_pure
  have child : ∀ kinds, Quiet t (inside kinds fun c _ => tokensIn c : Reader n _) := by
    intro kinds
    refine keeps_inside fun c hc => ?_
    have := Node.count_lt_of_mem hc
    exact quiet_tokensIn c
  cases next with
  | none => exact quiet_pure
  | some next =>
    dsimp only
    split
    · exact (child _).bind fun _ => quiet_pure
    · split
      · exact (child _).bind fun _ => quiet_pure
      · split
        · exact Quiet.bind (quiet_multiMatchFrom _ _) fun _ => quiet_pure
        · exact quiet_expectText.bind fun _ => quiet_pure
termination_by n.count

theorem quiet_plainTokens : Quiet t (plainTokens : Reader n _) := by
  refine quiet_gather (quiet_peekKind.bind fun next => ?_)
  cases next with
  | none => exact quiet_pure
  | some kind => exact quiet_expectText.bind fun _ => quiet_pure

theorem quiet_spelled (tokens : List String) : Quiet t (spelled tokens : Reader n _) := by
  unfold spelled
  split
  · exact quiet_pure
  · exact keeps_throw

theorem quiet_expression (d : Dialect) : Quiet t (expression d : Reader n _) := by
  cases d with
  | ruby => exact Quiet.bind (keeps_inside fun c _ => quiet_tokensIn c) fun _ => quiet_spelled _
  | plain => exact Quiet.bind (keeps_inside fun _ _ => quiet_plainTokens) fun _ => quiet_pure

/-! ## Modifiers, variables, parameters and arguments -/

theorem quiet_annotationUse (d : Dialect) : Quiet t (annotationUse d : Reader n _) := by
  refine keeps_inside fun _ _ => quiet_token.bind fun _ => quiet_qualifiedName.bind fun _ => ?_
  refine quiet_tryToken.bind fun found => ?_
  cases found with
  | true =>
    refine quiet_nextIs.bind fun next => ?_
    cases next with
    | true => exact (quiet_expression d).bind fun _ => quiet_token
    | false => exact quiet_token
  | false => exact quiet_pure

theorem quiet_modifierList (d : Dialect) {listKind itemKind : String} :
    Quiet t (modifierList d listKind itemKind : Reader n _) := by
  refine keeps_inside fun _ _ => ?_
  refine Quiet.bind (quiet_many fun _ _ => ?_) fun _ => quiet_pure
  refine quiet_tryMatch.bind fun keyword => ?_
  cases keyword with
  | some keyword => exact quiet_pure
  | none => exact (quiet_annotationUse d).bind fun _ => quiet_pure

theorem quiet_variableModifiers (d : Dialect) : Quiet t (variableModifiers d : Reader n _) :=
  (quiet_modifierList d).bind fun _ => quiet_pure

theorem quiet_declaratorId (type : Syntax.TypeRef) : Quiet t (declaratorId type : Reader n _) :=
  keeps_inside fun _ _ => quiet_name.bind fun _ => quiet_dims.bind fun _ => quiet_pure

theorem quiet_initializerIn (d : Dialect) (n : Node) : Quiet t (initializerIn d n) := by
  rw [initializerIn]
  refine quiet_nextIs.bind fun next => ?_
  cases next with
  | false => exact (quiet_expression d).bind fun _ => quiet_pure
  | true =>
    refine keeps_inside fun c hc => quiet_token.bind fun _ => quiet_nextIs.bind fun next => ?_
    have hc := Node.count_lt_of_mem hc
    have element : Quiet t (inside ["variableInitializer"] fun e _ => initializerIn d e :
        Reader c _) := by
      refine keeps_inside fun e he => ?_
      have he := Node.count_lt_of_mem he
      exact quiet_initializerIn d e
    have rest : ∀ elements, Quiet t (do
        token "\x7d"
        return Syntax.Initializer.array elements : Reader c _) :=
      fun _ => quiet_token.bind fun _ => quiet_pure
    cases next with
    | false => exact quiet_pure.bind rest
    | true =>
      refine element.bind fun first => Quiet.bind (quiet_gather ?_) fun more => quiet_pure.bind rest
      refine quiet_tryToken.bind fun found => ?_
      cases found with
      | false => exact quiet_pure
      | true =>
        refine quiet_nextIs.bind fun next => ?_
        cases next with
        | true => exact element.bind fun _ => quiet_pure
        | false => exact quiet_pure
termination_by n.count

theorem quiet_initializer (d : Dialect) : Quiet t (initializer d : Reader n _) :=
  keeps_inside fun c _ => quiet_initializerIn d c

theorem quiet_declarator (d : Dialect) (type : Syntax.TypeRef) :
    Quiet t (inside ["variableDeclarator"] fun _ _ => do
      let (ident, type) ← declaratorId type
      if ← tryToken "=" then return (⟨ident, type, some (← initializer d)⟩ : Syntax.Declarator)
      else return ⟨ident, type, none⟩ : Reader n _) := by
  refine keeps_inside fun _ _ => ?_
  refine (quiet_declaratorId type).bind fun ident => ?_
  refine quiet_tryToken.bind fun found => ?_
  cases found with
  | true => exact (quiet_initializer d).bind fun _ => quiet_pure
  | false => exact quiet_pure

theorem keeps_declarators (d : Dialect) (type : Syntax.TypeRef) :
    Keeps t given (declarators d type : Reader n _) (Syntax.declaratorTexts given) :=
  keeps_inside fun _ _ => (quiet_declarator d type).separated fun _ _ => rfl

theorem quiet_declarators (d : Dialect) (type : Syntax.TypeRef) :
    Quiet t (declarators d type : Reader n _) :=
  keeps_inside fun _ _ => quiet_separated (quiet_declarator d type)

theorem quiet_constantRest (d : Dialect) (constant : String) (type : Syntax.TypeRef) :
    Quiet t (constantRest d constant type : Reader n _) := by
  refine keeps_inside fun _ _ => ?_
  refine quiet_dims.bind fun _ => ?_
  refine quiet_token.bind fun _ => ?_
  exact (quiet_initializer d).bind fun _ => quiet_pure

theorem quiet_parametersIn (d : Dialect) (n : Node) : Quiet t (parametersIn d n) := by
  rw [parametersIn]
  refine (quiet_variableModifiers d).bind fun _ => ?_
  refine quiet_type.bind fun declared => ?_
  refine keeps_inside fun c hc => ?_
  refine quiet_tryToken.bind fun variadic => ?_
  refine (quiet_declaratorId declared).bind fun ident => ?_
  have hc := Node.count_lt_of_mem hc
  cases variadic with
  | true => exact quiet_pure
  | false =>
    refine quiet_tryToken.bind fun found => ?_
    cases found with
    | false => exact quiet_pure.bind fun _ => quiet_pure
    | true =>
      refine Quiet.bind (keeps_inside fun r hr => ?_) fun _ => quiet_pure
      have hr := Node.count_lt_of_mem hr
      exact quiet_parametersIn d r
termination_by n.count

theorem quiet_parameters (d : Dialect) : Quiet t (parameters d : Reader n _) := by
  refine keeps_inside fun _ _ => ?_
  refine quiet_token.bind fun _ => ?_
  refine Quiet.bind (quiet_optional fun c _ => quiet_parametersIn d c) fun _ => ?_
  exact quiet_token.bind fun _ => quiet_pure

theorem quiet_arguments (d : Dialect) : Quiet t (arguments d : Reader n _) := by
  refine keeps_inside fun _ _ => ?_
  refine quiet_token.bind fun _ => ?_
  refine Quiet.bind (quiet_optional fun _ _ => quiet_separated (quiet_expression d)) fun _ => ?_
  exact quiet_token.bind fun _ => quiet_pure

/-! ## Pieces of declarations and statements -/

open Syntax

theorem keeps_signatureRest (d : Dialect) (comments : List String) (head : MethodHead) :
    Keeps t comments (signatureRest d comments head : Reader n _) Signature.comments := by
  refine (quiet_parameters d).bind fun _ => ?_
  refine quiet_dims.bind fun _ => ?_
  exact quiet_throws.bind fun _ => keeps_pure rfl

theorem quiet_returnType : Quiet t (returnType : Reader n _) := by
  refine quiet_tryToken.bind fun found => ?_
  cases found with
  | true => exact quiet_pure
  | false => exact quiet_type

theorem quiet_parExpression (d : Dialect) : Quiet t (parExpression d : Reader n _) := by
  refine keeps_inside fun _ _ => ?_
  refine quiet_token.bind fun _ => ?_
  refine (quiet_expression d).bind fun _ => ?_
  exact quiet_token.bind fun _ => quiet_pure

theorem keeps_localVariables (d : Dialect) :
    Keeps t [] (localVariables d : Reader n _) Statement.commentTexts := by
  refine keeps_inside fun _ _ => ?_
  refine Quiet.bind (keeps_inside fun _ _ => ?_) fun _ => ?_
  · refine (quiet_variableModifiers d).bind fun _ => ?_
    exact quiet_type.bind fun _ => quiet_declarators d _
  · exact quiet_token.bind fun _ => keeps_pure rfl

theorem quiet_switchLabels (d : Dialect) : Quiet t (switchLabels d : Reader n _) := by
  refine quiet_many fun c _ => quiet_tryToken.bind fun _ => keeps_ite ?_ ?_
  · exact quiet_pure.bind fun _ => quiet_token.bind fun _ => quiet_pure
  · refine quiet_token.bind fun _ => ?_
    refine (quiet_expression d).bind fun _ => ?_
    refine quiet_pure.bind fun _ => ?_
    exact quiet_token.bind fun _ => quiet_pure

theorem quiet_invocation (d : Dialect) : Quiet t (invocation d : Reader n _) := by
  refine quiet_optional fun _ _ => ?_
  refine quiet_expect.bind fun _ => ?_
  refine (quiet_arguments d).bind fun _ => ?_
  exact quiet_token.bind fun _ => quiet_pure

theorem keeps_blockRest {statement : (c : Node) → c ∈ n.children → Reader c (List Statement)}
    (hs : ∀ c hc, Keeps t [] (statement c hc) statementTexts) :
    Keeps t [] (blockRest statement) statementTexts := by
  refine (keeps_many _ hs).bind fun body => ?_
  refine quiet_token.bind fun _ => ?_
  refine keeps_takeComments.bind fun comments => ?_
  refine keeps_pure ?_
  rw [statementTexts_append, statementTexts_flatten, statementTexts_comments]
  rfl

theorem keeps_typeBody {kind : String} {member : (c : Node) → c ∈ n.children → Reader c α}
    (held : α → List String) (hm : ∀ c hc, Keeps t [] (member c hc) held) :
    Keeps t [] (typeBody kind member) fun b => b.opening ++ b.members.flatMap held ++ b.closing := by
  refine quiet_token.bind fun _ => ?_
  refine keeps_takeComments.bind fun _ => ?_
  refine (keeps_many _ hm).bind fun _ => ?_
  refine quiet_token.bind fun _ => ?_
  exact keeps_takeComments.bind fun _ => keeps_pure rfl

theorem keeps_constants (d : Dialect) (first : String) (type : TypeRef) :
    Keeps t given (constants d first type : Reader n _) (declaratorTexts given) := by
  refine keeps_inside fun _ _ => ?_
  refine (quiet_constantRest d first type).bind fun head => ?_
  refine Quiet.bind (quiet_gather (quiet_tryToken.bind fun found => ?_)) fun _ => keeps_pure rfl
  cases found with
  | true =>
    refine Quiet.bind (keeps_inside fun _ _ => ?_) fun _ => quiet_pure
    exact quiet_name.bind fun _ => quiet_constantRest d _ type
  | false => exact quiet_pure

theorem keeps_annotationType (d : Dialect) :
    Keeps t [] (annotationType d : Reader n _) TypeDecl.commentTexts := by
  refine quiet_token.bind fun _ => ?_
  refine quiet_token.bind fun _ => ?_
  refine quiet_name.bind fun typeName => ?_
  refine Quiet.bind (keeps_inside fun _ _ => ?_) fun _ => ?_
  · -- the elements hold no comment: what they pass is taken behind the body
    refine quiet_token.bind fun _ => ?_
    refine Quiet.bind (quiet_many fun _ _ => ?_) fun _ => quiet_token
    refine (quiet_modifierList d).bind fun _ => ?_
    refine keeps_inside fun _ _ => ?_
    refine quiet_type.bind fun _ => ?_
    refine Quiet.bind (keeps_inside fun _ _ => keeps_inside fun _ _ => ?_) fun _ => quiet_token
    refine quiet_name.bind fun _ => ?_
    exact quiet_token.bind fun _ => quiet_token
  · exact keeps_takeComments.bind fun _ => keeps_pure rfl

theorem keeps_interfaceMethod (d : Dialect) (kind : String) (comments : List String)
    (head : MethodHead) :
    Keeps t comments (interfaceMethod d kind comments head : Reader n _)
      InterfaceMember.commentTexts := by
  refine keeps_inside fun _ _ => ?_
  refine (keeps_signatureRest d comments head).andThen fun _ => ?_
  exact quiet_token.bind fun _ => keeps_pure rfl

theorem statementTexts_branchOf (s : Option Statement) :
    statementTexts (branchOf s) = s.elim [] Statement.commentTexts := by
  cases s with
  | none => rfl
  | some s => cases s <;> simp [branchOf, statementTexts, Statement.commentTexts]

theorem keeps_refuseNext {kinds : List String} {held : α → List String} :
    Keeps t given (refuseNext kinds : Reader n α) held :=
  quiet_mismatch.bind fun _ => keeps_refuse

/-! ## Declarations, members and statements -/

-- The readers call each other on children, so their lemmas go by the size of the node, as they do.
-- Members are given the comments taken in front of them and hold them at the end.
mutual

theorem keeps_declarationIn (d : Dialect) (n : Node) :
    Keeps t [] (declarationIn d n) declarationTexts := by
  rw [declarationIn]
  refine keeps_takeComments.bind fun comments => ?_
  refine (quiet_modifierList d).bind fun words => ?_
  refine quiet_nextIs.bind fun _ => ?_
  refine keeps_ite ?_ (quiet_nextIs.bind fun _ => keeps_ite ?_ keeps_refuseNext)
  · refine Keeps.bind (keeps_inside fun c hc => ?_) fun decl => keeps_pure rfl
    have := Node.count_lt_of_mem hc
    exact keeps_classIn d _ c
  · refine Keeps.bind (keeps_inside fun c hc => ?_) fun decl => keeps_pure rfl
    have := Node.count_lt_of_mem hc
    exact keeps_interfaceIn d c
termination_by n.count

theorem keeps_classIn (d : Dialect) (static : Bool) (n : Node) :
    Keeps t [] (classIn d static n) TypeDecl.commentTexts := by
  rw [classIn]
  refine quiet_nextIs.bind fun _ => ?_
  refine keeps_ite (keeps_inside fun c hc => ?_) (keeps_inside fun c hc => ?_)
  · have := Node.count_lt_of_mem hc
    exact keeps_enumIn d c
  · have hc := Node.count_lt_of_mem hc
    have body : Keeps t [] (inside ["classBody"] fun b _ => classBodyIn d b : Reader c _)
        memberBodyTexts := by
      refine keeps_inside fun b hb => ?_
      have := Node.count_lt_of_mem hb
      exact keeps_classBodyIn d b
    refine quiet_token.bind fun _ => ?_
    refine quiet_name.bind fun typeName => ?_
    refine quiet_optionalTypeParameters.bind fun generics => ?_
    refine quiet_tryToken.bind fun _ => ?_
    refine keeps_join (keeps_map quiet_type fun _ => rfl) quiet_pure fun superclass => ?_
    refine quiet_tryToken.bind fun _ => ?_
    refine keeps_join quiet_typeList quiet_pure fun interfaces => ?_
    exact body.bind fun _ => keeps_pure rfl
termination_by n.count

theorem keeps_classBodyIn (d : Dialect) (n : Node) :
    Keeps t [] (classBodyIn d n) memberBodyTexts := by
  rw [classBodyIn]
  refine (keeps_typeBody Member.commentTexts fun c hc => ?_).congr fun body => ?_
  · have := Node.count_lt_of_mem hc
    exact keeps_memberIn d c
  · rw [memberBodyTexts, memberTexts_eq]
termination_by n.count

theorem keeps_memberIn (d : Dialect) (n : Node) :
    Keeps t [] (memberIn d n) Member.commentTexts := by
  rw [memberIn]
  -- What comes behind the two early ends is read from two places.
  refine keeps_takeComments.bind fun comments => ?_
  refine quiet_tryToken.bind fun _ => ?_
  refine keeps_ite (keeps_pure rfl) (quiet_nextIs.bind fun _ => ?_)
  have member : Keeps t comments (do
      let words ← modifiers d
      inside ["memberDecl"] fun c _ => memberDeclIn d comments words c : Reader n _)
      Member.commentTexts := by
    refine (quiet_modifierList d).bind fun words => keeps_inside fun c hc => ?_
    have := Node.count_lt_of_mem hc
    exact keeps_memberDeclIn d comments words c
  refine keeps_ite (quiet_tryToken.bind fun _ => keeps_ite ?_ ?_) member
  · refine Keeps.bind (keeps_inside fun c hc => ?_) fun body => keeps_pure rfl
    have := Node.count_lt_of_mem hc
    exact keeps_blockIn d c
  · exact Quiet.bind keeps_throw fun _ => member
termination_by n.count

theorem keeps_memberDeclIn (d : Dialect) (comments words : List String) (n : Node) :
    Keeps t comments (memberDeclIn d comments words n) Member.commentTexts := by
  rw [memberDeclIn]
  refine quiet_peekKind.bind fun kind => ?_
  split
  · refine keeps_inside fun c hc => ?_
    refine quiet_typeParameters.bind fun generics => ?_
    refine keeps_inside fun r hr => ?_
    refine quiet_nextIs.bind fun _ => ?_
    refine keeps_ite ?_ ?_
    · refine quiet_name.bind fun _ => keeps_inside fun b hb => ?_
      have hc := Node.count_lt_of_mem hc
      have hr := Node.count_lt_of_mem hr
      have hb := Node.count_lt_of_mem hb
      exact keeps_constructorIn d comments generics b
    · refine quiet_returnType.bind fun returns => ?_
      refine quiet_name.bind fun method => ?_
      refine keeps_inside fun b hb => ?_
      have hc := Node.count_lt_of_mem hc
      have hr := Node.count_lt_of_mem hr
      have hb := Node.count_lt_of_mem hb
      exact keeps_methodIn d comments words _ b
  · refine keeps_inside fun c hc => ?_
    refine quiet_type.bind fun declared => ?_
    refine quiet_nextIs.bind fun _ => ?_
    refine keeps_ite ?_ ?_
    · refine keeps_inside fun _ _ => ?_
      refine (keeps_declarators d declared).andThen fun fields => ?_
      exact quiet_token.bind fun _ => keeps_pure rfl
    · refine keeps_inside fun m hm => quiet_name.bind fun method => keeps_inside fun b hb => ?_
      have hc := Node.count_lt_of_mem hc
      have hm := Node.count_lt_of_mem hm
      have hb := Node.count_lt_of_mem hb
      exact keeps_methodIn d comments words _ b
  · refine quiet_token.bind fun _ => quiet_name.bind fun method => keeps_inside fun b hb => ?_
    have hb := Node.count_lt_of_mem hb
    exact keeps_methodIn d comments words _ b
  · refine quiet_name.bind fun _ => keeps_inside fun b hb => ?_
    have hb := Node.count_lt_of_mem hb
    exact keeps_constructorIn d comments [] b
  · refine keeps_inside fun c hc => ?_
    have hc := Node.count_lt_of_mem hc
    exact (keeps_interfaceIn d c).bind fun decl => keeps_pure rfl
  · refine keeps_inside fun c hc => ?_
    have hc := Node.count_lt_of_mem hc
    exact (keeps_classIn d _ c).bind fun decl => keeps_pure rfl
  · exact keeps_refuseNext
termination_by n.count

theorem keeps_methodIn (d : Dialect) (comments words : List String) (head : MethodHead) (n : Node) :
    Keeps t comments (methodIn d comments words head n) Member.commentTexts := by
  rw [methodIn]
  refine (keeps_signatureRest d comments head).andThen fun signature => ?_
  refine quiet_tryToken.bind fun _ => ?_
  refine keeps_ite ?_ ?_
  · refine Keeps.bind (show Keeps t [] _ methodBodyTexts from keeps_pure ?_) fun body =>
      keeps_pure rfl
    split <;> rfl
  · refine Keeps.bind (show Keeps t [] _ methodBodyTexts from keeps_inside fun c hc => ?_)
      fun body => keeps_pure rfl
    refine Keeps.andThen (keeps_inside fun b hb => ?_) fun body => keeps_pure rfl
    have hc := Node.count_lt_of_mem hc
    have hb := Node.count_lt_of_mem hb
    exact keeps_blockIn d b
termination_by n.count

theorem keeps_constructorIn (d : Dialect) (comments generics : List String) (n : Node) :
    Keeps t comments (constructorIn d comments generics n) Member.commentTexts := by
  rw [constructorIn]
  refine (quiet_parameters d).bind fun params => ?_
  refine quiet_throws.bind fun _ => ?_
  refine keeps_inside fun c hc => ?_
  refine quiet_token.bind fun _ => ?_
  refine (quiet_invocation d).bind fun call => ?_
  refine Keeps.bind (keeps_blockRest fun s hs => ?_) fun body => keeps_pure rfl
  have hc := Node.count_lt_of_mem hc
  have hs := Node.count_lt_of_mem hs
  exact keeps_blockStatementIn d s
termination_by n.count

theorem keeps_enumIn (d : Dialect) (n : Node) : Keeps t [] (enumIn d n) TypeDecl.commentTexts := by
  rw [enumIn]
  refine quiet_token.bind fun _ => ?_
  refine quiet_name.bind fun typeName => ?_
  refine quiet_tryToken.bind fun _ => ?_
  refine keeps_join quiet_typeList quiet_pure fun interfaces => ?_
  refine keeps_inside fun c hc => ?_
  have hc := Node.count_lt_of_mem hc
  refine quiet_token.bind fun _ => ?_
  refine keeps_takeComments.bind fun opening => ?_
  refine (keeps_optional constantTexts fun e he => ?_).bind fun constants => ?_
  · have he := Node.count_lt_of_mem he
    refine (keeps_separated EnumConstant.commentTexts (keeps_inside fun k hk => ?_)).congr
      fun items => ?_
    · have hk := Node.count_lt_of_mem hk
      exact keeps_enumConstantIn d k
    · rw [constantTexts_eq]
  refine quiet_tryToken.bind fun _ => ?_
  refine (keeps_optional memberTexts fun b hb => ?_).bind fun members => ?_
  · have hb := Node.count_lt_of_mem hb
    refine quiet_token.bind fun _ => ?_
    refine (keeps_many Member.commentTexts fun m hm => ?_).congr fun items => by rw [memberTexts_eq]
    have hm := Node.count_lt_of_mem hm
    exact keeps_memberIn d m
  refine quiet_token.bind fun _ => ?_
  refine keeps_takeComments.bind fun closing => keeps_pure ?_
  cases constants <;> cases members <;>
    simp [TypeDecl.commentTexts, memberBodyTexts, constantTexts, memberTexts] <;> omega
termination_by n.count

theorem keeps_enumConstantIn (d : Dialect) (n : Node) :
    Keeps t [] (enumConstantIn d n) EnumConstant.commentTexts := by
  rw [enumConstantIn]
  refine keeps_takeComments.bind fun comments => ?_
  refine Quiet.bind (quiet_gather ?_) fun _ => ?_
  · refine quiet_nextIs.bind fun _ => ?_
    exact keeps_ite ((quiet_annotationUse d).bind fun _ => quiet_pure) quiet_pure
  refine quiet_name.bind fun constant => ?_
  refine quiet_nextIs.bind fun _ => ?_
  refine keeps_join (quiet_arguments d) quiet_pure fun args => ?_
  refine (keeps_optional memberBodyTexts fun c hc => ?_).bind fun body => keeps_pure ?_
  · have hc := Node.count_lt_of_mem hc
    exact keeps_classBodyIn d c
  · cases body <;> rfl
termination_by n.count

theorem keeps_interfaceIn (d : Dialect) (n : Node) :
    Keeps t [] (interfaceIn d n) TypeDecl.commentTexts := by
  rw [interfaceIn]
  refine quiet_nextIs.bind fun _ => ?_
  refine keeps_ite (keeps_inside fun _ _ => keeps_annotationType d) (keeps_inside fun c hc => ?_)
  have hc := Node.count_lt_of_mem hc
  refine quiet_token.bind fun _ => ?_
  refine quiet_name.bind fun typeName => ?_
  refine quiet_optionalTypeParameters.bind fun generics => ?_
  refine quiet_tryToken.bind fun _ => ?_
  refine keeps_join quiet_typeList quiet_pure fun parents => ?_
  refine Keeps.bind (keeps_inside fun b hb =>
    keeps_typeBody InterfaceMember.commentTexts fun m hm => ?_) fun body => keeps_pure ?_
  · have hb := Node.count_lt_of_mem hb
    have hm := Node.count_lt_of_mem hm
    exact keeps_interfaceMemberIn d m
  · rw [TypeDecl.commentTexts, interfaceMemberTexts_eq]
    rfl
termination_by n.count

theorem keeps_interfaceMemberIn (d : Dialect) (n : Node) :
    Keeps t [] (interfaceMemberIn d n) InterfaceMember.commentTexts := by
  rw [interfaceMemberIn]
  refine keeps_takeComments.bind fun comments => ?_
  refine quiet_tryToken.bind fun _ => ?_
  refine keeps_ite (keeps_pure rfl) ?_
  refine (quiet_modifierList d).bind fun words => ?_
  refine keeps_inside fun c hc => ?_
  refine quiet_peekKind.bind fun kind => ?_
  have hc := Node.count_lt_of_mem hc
  split
  · refine keeps_inside fun _ _ => ?_
    refine quiet_type.bind fun declared => ?_
    refine quiet_name.bind fun member => ?_
    refine keeps_inside fun _ _ => ?_
    refine quiet_nextIs.bind fun _ => ?_
    refine keeps_ite (keeps_interfaceMethod d _ comments _) ?_
    refine (keeps_constants d member declared).andThen fun _ => ?_
    exact quiet_token.bind fun _ => keeps_pure rfl
  · refine keeps_inside fun _ _ => ?_
    refine quiet_typeParameters.bind fun generics => ?_
    refine quiet_returnType.bind fun returns => ?_
    refine quiet_name.bind fun method => ?_
    exact keeps_interfaceMethod d _ comments _
  · refine quiet_token.bind fun _ => ?_
    refine quiet_name.bind fun method => ?_
    exact keeps_interfaceMethod d _ comments _
  · refine keeps_inside fun s hs => ?_
    have hs := Node.count_lt_of_mem hs
    exact (keeps_interfaceIn d s).bind fun decl => keeps_pure rfl
  · refine keeps_inside fun s hs => ?_
    have hs := Node.count_lt_of_mem hs
    exact (keeps_classIn d _ s).bind fun decl => keeps_pure rfl
  · exact keeps_refuseNext
termination_by n.count

theorem keeps_blockIn (d : Dialect) (n : Node) : Keeps t [] (blockIn d n) statementTexts := by
  rw [blockIn]
  refine quiet_token.bind fun _ => keeps_blockRest fun c hc => ?_
  have hc := Node.count_lt_of_mem hc
  exact keeps_blockStatementIn d c
termination_by n.count

/-- The comments in front of a statement become statements of their own. -/
theorem keeps_blockStatementIn (d : Dialect) (n : Node) :
    Keeps t [] (blockStatementIn d n) statementTexts := by
  have declared : Keeps t [] (inside ["classOrInterfaceDeclaration"] fun c _ => do
      let (comments, decl) ← declarationIn d c
      return [Statement.type comments decl] : Reader n _) statementTexts := by
    refine keeps_inside fun c hc => ?_
    have hc := Node.count_lt_of_mem hc
    refine (keeps_declarationIn d c).andThen fun decl => keeps_pure ?_
    simp [statementTexts, Statement.commentTexts, declarationTexts]
  have rest : ∀ comments statements, Keeps t (comments ++ statementTexts statements)
      (pure (comments.map .comment ++ statements) : Reader n _) statementTexts := by
    intro comments statements
    refine keeps_pure ?_
    rw [statementTexts_append, statementTexts_comments]
  cases d with
  | ruby =>
    rw [blockStatementIn]
    refine keeps_takeComments.bind fun comments => ?_
    refine quiet_nextIs.bind fun _ => ?_
    refine keeps_ite (declared.bind (rest comments)) (quiet_nextIs.bind fun _ => keeps_ite ?_ ?_)
    · refine (keeps_localVariables _).bind fun s => Keeps.andThen (keeps_pure ?_) (rest comments)
      simp [statementTexts]
    · have statement : Keeps t [] (inside ["statement"] fun c _ => statementIn .ruby c : Reader n _)
          fun o => o.elim [] Statement.commentTexts := by
        refine keeps_inside fun c hc => ?_
        have hc := Node.count_lt_of_mem hc
        exact keeps_statementIn .ruby c
      refine statement.bind fun s => Keeps.andThen (keeps_pure ?_) (rest comments)
      cases s <;> simp [statementTexts]
  | plain =>
    rw [blockStatementIn]
    refine Keeps.bind (show Keeps t [] _ id from keeps_pure rfl) fun comments => ?_
    refine quiet_nextIs.bind fun _ => ?_
    refine keeps_ite (declared.bind (rest comments)) (quiet_nextIs.bind fun _ => keeps_ite ?_ ?_)
    · refine (quiet_arguments _).bind fun args => Keeps.andThen (keeps_pure ?_) (rest comments)
      simp [statementTexts, Statement.commentTexts]
    · have statement : Keeps t [] (inside ["statement"] fun c _ => plainStatementIn c : Reader n _)
          Statement.commentTexts := by
        refine keeps_inside fun c hc => ?_
        have hc := Node.count_lt_of_mem hc
        exact keeps_plainStatementIn c
      refine statement.bind fun s => Keeps.andThen (keeps_pure ?_) (rest comments)
      simp [statementTexts]
termination_by n.count

theorem keeps_statementIn (d : Dialect) (n : Node) :
    Keeps t [] (statementIn d n) fun o => o.elim [] Statement.commentTexts := by
  rw [statementIn]
  have branch : Keeps t [] (do
      let s ← inside ["statement"] fun c _ => statementIn d c
      return branchOf s : Reader n _) statementTexts := by
    refine Keeps.andThen (show Keeps t [] _ (fun o => o.elim [] Statement.commentTexts) from
      keeps_inside fun c hc => ?_) fun s => keeps_pure ?_
    · have hc := Node.count_lt_of_mem hc
      exact keeps_statementIn d c
    · rw [statementTexts_branchOf]
  refine quiet_peekKind.bind fun kind => ?_
  split
  · refine Keeps.bind (keeps_inside fun c hc => ?_) fun body => keeps_pure rfl
    have hc := Node.count_lt_of_mem hc
    exact keeps_blockIn d c
  · refine quiet_token.bind fun _ => ?_
    refine (quiet_parExpression d).bind fun condition => ?_
    refine branch.bind fun thenBranch => ?_
    refine quiet_tryToken.bind fun _ => ?_
    refine keeps_ite ?_ ?_
    · exact Keeps.bind (show Keeps t [] _ elseTexts from keeps_map branch fun _ => rfl)
        fun elseBranch => keeps_pure rfl
    · exact Keeps.bind (show Keeps t [] _ elseTexts from keeps_pure rfl)
        fun elseBranch => keeps_pure rfl
  · refine quiet_token.bind fun _ => ?_
    refine (quiet_parExpression d).bind fun condition => ?_
    exact branch.bind fun body => keeps_pure rfl
  · refine quiet_token.bind fun _ => ?_
    refine (quiet_parExpression d).bind fun value => ?_
    refine quiet_token.bind fun _ => ?_
    refine (keeps_optional groupTexts fun c hc => ?_).bind fun groups => ?_
    · refine (keeps_many SwitchGroup.commentTexts fun g hg => ?_).congr
        fun groups => by rw [groupTexts_eq]
      refine (quiet_switchLabels d).bind fun labels => ?_
      refine (keeps_many statementTexts fun s hs => ?_).bind fun body => keeps_pure ?_
      · have hc := Node.count_lt_of_mem hc
        have hg := Node.count_lt_of_mem hg
        have hs := Node.count_lt_of_mem hs
        exact keeps_blockStatementIn d s
      · rw [SwitchGroup.commentTexts, statementTexts_flatten]
        rfl
    · refine quiet_token.bind fun _ => keeps_pure ?_
      cases groups <;> rfl
  · refine quiet_token.bind fun _ => ?_
    refine quiet_nextIs.bind fun _ => ?_
    refine keeps_join (keeps_map (quiet_expression d) fun _ => rfl) quiet_pure fun _ => ?_
    exact quiet_token.bind fun _ => keeps_pure rfl
  · refine quiet_token.bind fun _ => ?_
    refine (quiet_expression d).bind fun _ => ?_
    exact quiet_token.bind fun _ => keeps_pure rfl
  · refine quiet_token.bind fun _ => ?_
    refine quiet_nextIs.bind fun _ => ?_
    refine keeps_join (keeps_map quiet_name fun _ => rfl) quiet_pure fun _ => ?_
    exact quiet_token.bind fun _ => keeps_pure rfl
  · exact quiet_token.bind fun _ => keeps_pure rfl
  · refine Quiet.bind (keeps_inside fun _ _ => quiet_expression d) fun _ => ?_
    exact quiet_token.bind fun _ => keeps_pure rfl
  · refine quiet_name.bind fun label => ?_
    refine quiet_token.bind fun _ => ?_
    exact branch.bind fun body => keeps_pure rfl
  · exact keeps_refuseNext
termination_by n.count

theorem keeps_plainStatementIn (n : Node) :
    Keeps t [] (plainStatementIn n) Statement.commentTexts := by
  rw [plainStatementIn]
  refine quiet_nextIs.bind fun _ => keeps_ite (keeps_inside fun c hc => ?_) ?_
  · refine quiet_token.bind fun _ => ?_
    refine (keeps_many statementTexts fun s hs => ?_).bind fun body => ?_
    · have hc := Node.count_lt_of_mem hc
      have hs := Node.count_lt_of_mem hs
      exact keeps_blockStatementIn .plain s
    · refine quiet_token.bind fun _ => keeps_pure ?_
      rw [Statement.commentTexts, statementTexts_flatten]
      rfl
  · refine Quiet.bind (keeps_inside fun _ _ => quiet_expression .plain) fun _ => ?_
    exact quiet_token.bind fun _ => keeps_pure rfl
termination_by n.count

end

/-! ## Compilation units -/

theorem quiet_importIn : Quiet t (importIn : Reader n _) := by
  refine quiet_token.bind fun _ => ?_
  refine quiet_tryToken.bind fun static => ?_
  refine quiet_qualifiedName.bind fun path => ?_
  refine quiet_tryToken.bind fun wildcard => ?_
  refine keeps_ite ?_ ?_
  · exact quiet_token.bind fun _ => quiet_token.bind fun _ => quiet_pure
  · exact quiet_token.bind fun _ => quiet_pure

/-- Comments before the first import or type are the unit's own. -/
theorem keeps_unit (d : Dialect) :
    Keeps t [] (unit d : Reader n _) CompilationUnit.leadingTexts := by
  refine keeps_inside fun _ _ => ?_
  refine Quiet.bind (quiet_optional fun _ _ => ?_) fun package => ?_
  · refine quiet_token.bind fun _ => ?_
    refine quiet_qualifiedName.bind fun _ => ?_
    exact quiet_token.bind fun _ => quiet_pure
  refine keeps_takeComments.bind fun comments => ?_
  refine Quiet.bind (quiet_many fun _ _ => quiet_importIn) fun imports => ?_
  refine (keeps_many (fun o => o.elim [] declarationTexts) fun _ _ => ?_).bind fun types =>
    keeps_pure ?_
  · refine quiet_tryToken.bind fun _ => ?_
    refine keeps_ite (keeps_pure rfl) ?_
    exact keeps_map (keeps_inside fun c _ => keeps_declarationIn d c) fun _ => rfl
  · have htypes : (types.filterMap id).flatMap declarationTexts =
        types.flatMap fun o => o.elim [] declarationTexts := by
      induction types with
      | nil => rfl
      | cons o rest ih =>
        cases o with
        | none => exact ih
        | some declaration => exact congrArg (declarationTexts declaration ++ ·) ih
    rw [CompilationUnit.leadingTexts, htypes]
    rfl

/-- A tree that is read has its comments in what was read or among those nobody took. -/
theorem count_readTree {tree : Node} {r : Reader (above tree) α} {held : α → List String}
    (hr : Keeps t [] r held) {a : α} {texts : List String} (h : readTree tree r = .ok (a, texts)) :
    (held a).count t + texts.count t = tree.commentTexts.count t := by
  unfold readTree at h
  split at h
  · cases h
  · rename_i b p hp
    split at h
    · cases h
    · rename_i rest hl
      cases h
      have e := hr _ _ _ hp
      simp only [Place.tally, Node.commentTextsAll_of_leave hl, Node.commentTextsAll,
        List.append_nil, List.count_nil] at e
      rw [List.count_append]
      omega

/-- **Reading a compilation unit neither loses nor duplicates comments.** -/
theorem perm_commentTexts_readUnit {d : Dialect} {tree : Node} {u : CompilationUnit}
    (h : readUnit d tree = .ok u) : u.commentTexts.Perm tree.commentTexts := by
  rw [List.perm_iff_count]
  intro t
  unfold readUnit at h
  cases hr : readTree tree (unit d) with
  | error e => rw [hr] at h; cases h
  | ok r =>
    obtain ⟨v, texts⟩ := r
    rw [hr] at h
    cases h
    have e : v.leadingTexts.count t + texts.count t = tree.commentTexts.count t :=
      count_readTree (keeps_unit d) hr
    rw [← e]
    exact List.count_append

end Grammar

end Rubify
