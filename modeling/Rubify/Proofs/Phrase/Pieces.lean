import Rubify.Proofs.Grammar.Takes

/-!
# Reading phrases: names, types, expressions and variables

What the grammar reads from the phrases of `Rubify.Phrase.Basic`. A type is read as its base and the
number of its dimensions (`typeRef`). The text of an expression may be anything that is read as an
expression; a `Source` is such a text, with the expression.
-/

namespace Rubify.Phrase

open Grammar MonadWalk Reader Syntax

variable {n : Node} {rest : List Node}

/-! ## Names and types -/

/-- The type that a text means. -/
def typeRef (text : String) : TypeRef :=
  let (base, dims) := splitDims text
  ⟨match Primitive.ofKeyword? base with
    | some p => .primitive p
    | none => .named (Text.segments base), dims⟩

theorem segments_ne_nil (path : String) : Text.segments path ≠ [] := by
  simp [Text.segments, List.splitOn_ne_nil]

theorem takes_identifier (ident : String) :
    Takes (MonadWalk.name : Reader n String) (identifier ident :: rest) ident rest :=
  takes_name rfl

theorem takes_dotted (path : String) :
    Takes (Reader.separated "." MonadWalk.name : Reader n (List String)) (dotted path)
      (Text.segments path) [] :=
  (takes_separated_all (segments_ne_nil path) (fun ident _ _ _ => takes_identifier ident)
    (by decide)).result (List.map_id' _)

theorem intercalate_segments (path : String) : ".".intercalate (Text.segments path) = path := by
  rw [Text.segments, ← String.toList_inj, String.toList_intercalate, List.map_map,
    Function.comp_def]
  simp only [String.toList_ofList, List.map_id']
  exact List.intercalate_splitOn '.'

theorem takes_qualifiedName (path : String) :
    Takes (Grammar.qualifiedName : Reader n String) (qualifiedName path :: rest) path rest := by
  refine takes_inside rfl fun _ => ?_
  refine Takes.bind (takes_dotted path) ?_
  exact takes_pure.result (intercalate_segments path)

/-- Pairs of brackets, up to something else. -/
theorem takes_dims (k : Nat) (hrest : Node.nextHas ["["] rest = false) :
    Takes (dims : Reader n Nat) ((List.replicate k [token "[", token "]"]).flatten ++ rest) k
      rest := by
  unfold dims
  refine Takes.bind (a := List.replicate k ()) ?_ (by
    rw [List.length_replicate]
    exact takes_pure)
  induction k with
  | zero => exact takes_gather_nil (takes_if_no_token hrest takes_pure)
  | succ k ih =>
    rw [List.replicate_succ, List.flatten_cons, List.append_assoc, List.replicate_succ,
      List.cons_append, List.singleton_append]
    refine takes_gather_cons (takes_if_token rfl (Takes.bind (takes_token rfl) takes_pure)) ?_ ih
    simp only [List.length_cons]
    omega

theorem takes_no_dims (hrest : Node.nextHas ["["] rest = false) :
    Takes (dims : Reader n Nat) rest 0 rest :=
  takes_dims 0 hrest

/-- Inside a primitive type. -/
theorem takes_keyword {base : String} {p : Primitive} (h : Primitive.ofKeyword? base = some p) :
    Takes (do return primitiveName (← expect (Primitive.all.map Primitive.keyword)) :
      Reader n TypeName) [token base] (.primitive p) [] := by
  have hname : primitiveName base = .primitive p := by
    rw [primitiveName, h]
  obtain rfl : p.keyword = base := by
    simpa using List.find?_some h
  rw [← hname]
  refine Takes.bind (takes_expect ?_) takes_pure
  cases p <;> rfl

/-- Inside a class type without type arguments. -/
theorem takes_classTypeIn (base : String) :
    Takes (classTypeIn (classType base)) (classType base).children (.named (Text.segments base))
      [] := by
  rw [classTypeIn]
  refine Takes.bind ?_ takes_pure
  show Takes _ (dotted base) _ _
  refine Takes.result (takes_separated_all (segments_ne_nil base) (fun ident _ after hafter => ?_)
    (by decide)) (List.map_id' _)
  refine (takes_identifier ident).bind (Takes.bind (takes_optional_none ?_) takes_pure)
  rcases hafter with rfl | hafter
  · rfl
  · rw [Node.nextHas, hafter]
    rfl

theorem takes_typeIn (text : String) :
    Takes (typeIn (type text)) (type text).children (typeRef text) [] := by
  have hdims {n : Node} (k : Nat) : Takes (dims : Reader n Nat)
      ((List.replicate k [token "[", token "]"]).flatten) k [] := by
    rw [← List.append_nil (List.flatten _)]
    exact takes_dims k rfl
  rw [typeIn]
  cases hp : Primitive.ofKeyword? (splitDims text).1 with
  | some p =>
    simp only [type, typeRef, hp, Option.isSome_some, if_true]
    refine takes_if_next rfl (Takes.bind (takes_inside rfl fun _ => ?_) ((hdims _).bind takes_pure))
    exact takes_keyword hp
  | none =>
    simp only [type, typeRef, hp, Option.isSome_none, Bool.false_eq_true, if_false]
    refine takes_if_not rfl ?_
    refine Takes.bind (takes_inside rfl fun _ => takes_classTypeIn (splitDims text).1) ?_
    exact (hdims _).bind takes_pure

theorem takes_type (text : String) :
    Takes (Grammar.type : Reader n TypeRef) (type text :: rest) (typeRef text) rest :=
  takes_inside rfl fun _ => takes_typeIn text

theorem takes_typeList {types : List String} (hne : types ≠ []) :
    Takes (Grammar.typeList : Reader n (List TypeRef)) (typeList types :: rest) (types.map typeRef)
      rest := by
  refine takes_inside rfl fun _ => ?_
  show Takes _ (separated "," (types.map type)) _ _
  exact takes_separated_all hne (fun text _ _ _ => takes_type text) (by decide)

theorem takes_typeParameters {names : List String} (hne : names ≠ []) :
    Takes (Grammar.typeParameters : Reader n (List String)) (typeParameters names :: rest) names
      rest := by
  refine takes_inside rfl fun _ => ?_
  show Takes _ (token "<" :: (separated "," (names.map fun ident =>
    node "typeParameter" [identifier ident]) ++ [token ">"])) _ _
  refine Takes.bind (takes_token rfl) ?_
  refine Takes.bind (Takes.result (takes_separated hne (fun ident _ after _ => ?_) (by decide) rfl)
    (List.map_id' _)) (Takes.bind (takes_token rfl) takes_pure)
  refine takes_inside rfl fun _ => ?_
  exact (takes_identifier ident).bind (takes_if_no_token rfl takes_pure)

/-- Type parameters that need not be there, up to something else. -/
theorem takes_optionalTypeParameters (names : List String)
    (hrest : Node.nextHas ["typeParameters"] rest = false) :
    Takes (optionalTypeParameters : Reader n (List String))
      ((if names.isEmpty then [] else [typeParameters names]) ++ rest) names rest := by
  cases names with
  | nil => exact takes_if_not hrest takes_pure
  | cons first more => exact takes_if_next rfl (takes_typeParameters (List.cons_ne_nil _ _))

/-! ## Expressions -/

/-- A text that is read as an expression. -/
structure Source where
  text : String
  expr : Expr
  reads : readExpression (expression text) = .ok (expr, [])

/-- Tokens that spell an expression somewhere spell it everywhere. -/
theorem takes_spelled {m : Node} {tokens : List String} {e : Expr} {p q : Place m}
    (h : spelled tokens p = .ok (e, q)) :
    q = p ∧ ∀ left, Takes (spelled tokens : Reader n Expr) left e left := by
  unfold spelled at h ⊢
  cases he : Expr.ofTokens tokens with
  | ok e' =>
    rw [he] at h
    cases h
    exact ⟨rfl, fun left => takes_pure⟩
  | error op =>
    rw [he] at h
    cases h

theorem takes_expression (s : Source) :
    Takes (Grammar.expression .ruby : Reader n Expr) (expression s.text :: rest) s.expr rest := by
  obtain ⟨q, hq, -, hcomments⟩ := readTree_eq_ok s.reads
  obtain ⟨tokens, q', hinside, hspelled⟩ := bind_eq_ok.mp hq
  obtain ⟨rfl, htakes⟩ := takes_spelled (n := n) hspelled
  obtain ⟨-, -, hbody⟩ := inside_eq_ok rfl rfl hinside hcomments rfl
  exact Takes.bind (takes_inside rfl fun _ => hbody List.mem_cons_self) (htakes rest)

theorem takes_arguments (sources : List Source) :
    Takes (Grammar.arguments .ruby : Reader n (List Expr))
      (arguments (sources.map Source.text) :: rest) (sources.map Source.expr) rest := by
  refine takes_inside rfl fun _ => Takes.bind (takes_token rfl) ?_
  cases sources with
  | nil => exact Takes.bind (takes_optional_none rfl) (Takes.bind (takes_token rfl) takes_pure)
  | cons first more =>
    refine Takes.bind (takes_optional (a := (first :: more).map Source.expr) rfl fun _ => ?_)
      (Takes.bind (takes_token rfl) takes_pure)
    show Takes _ (separated "," (((first :: more).map Source.text).map expression)) _ _
    rw [List.map_map]
    exact takes_separated_all (List.cons_ne_nil _ _) (fun s _ _ _ => takes_expression s) (by decide)

/-! ## Modifiers -/

/-- A modifier: one of the keywords, or an annotation. -/
inductive Modifier
  | keyword (word : String) (accepted : word ∈ modifierKeywords)
  | annotated (path : String)

/-- The modifier as a phrase takes it. -/
def Modifier.word : Modifier → String
  | .keyword word _ => word
  | .annotated path => "@" ++ path

/-- The modifier as it is read. -/
def Modifier.keywords : Modifier → List String
  | .keyword word _ => [word]
  | .annotated _ => []

/-- The keywords among modifiers. -/
def keywordsOf (words : List Modifier) : List String :=
  words.flatMap Modifier.keywords

theorem modifier_keyword (kind : String) {word : String} (h : word ∈ modifierKeywords) :
    modifier kind word = node kind [token word] := by
  have hnone : ∀ word ∈ modifierKeywords, Text.after? ['@'] word.toList = none := by decide
  rw [modifier, hnone word h]

theorem modifier_annotated (kind path : String) : modifier kind ("@" ++ path) =
    node kind [node "annotation" [token "@", qualifiedName path]] := by
  simp [modifier, Text.after?]

theorem takes_annotationUse (path : String) : Takes (annotationUse .ruby : Reader n Unit)
    (node "annotation" [token "@", qualifiedName path] :: rest) () rest := by
  refine takes_inside rfl fun _ => ?_
  refine Takes.bind (takes_token rfl) ?_
  refine (takes_qualifiedName path).bind ?_
  exact takes_if_no_token rfl takes_pure

theorem takes_modifierList {listKind itemKind : String} (hlist : listKind ≠ "line_comment")
    (hitem : itemKind ≠ "line_comment") (words : List Modifier) :
    Takes (modifierList .ruby listKind itemKind : Reader n (List String))
      (node listKind (words.map fun w => modifier itemKind w.word) :: rest) (keywordsOf words)
      rest := by
  refine takes_inside (Node.isAmong_of_kind rfl hlist) fun _ =>
    Takes.bind (a := words.map Modifier.keywords) ?_ takes_pure
  show Takes _ (words.map _) _ _
  refine takes_many_all (fun w _ => ?_) (fun w _ _ => ?_)
  · cases w with
    | keyword word h =>
      rw [Modifier.word, modifier_keyword itemKind h]
      exact Node.isAmong_of_kind rfl hitem
    | annotated path =>
      rw [Modifier.word, modifier_annotated]
      exact Node.isAmong_of_kind rfl hitem
  · cases w with
    | keyword word h =>
      have htoken : ∀ word ∈ modifierKeywords, (token word).isToken modifierKeywords = true := by
        decide
      rw [Modifier.word, modifier_keyword itemKind h]
      exact Takes.bind (takes_tryMatch (htoken word h)) takes_pure
    | annotated path =>
      rw [Modifier.word, modifier_annotated]
      exact Takes.bind (takes_tryMatch_none rfl) ((takes_annotationUse path).bind takes_pure)

theorem takes_noVariableModifiers : Takes (variableModifiers .ruby : Reader n Unit)
    (node "variableModifiers" [] :: rest) () rest :=
  (takes_modifierList (by decide) (by decide) []).bind takes_pure

/-! ## Variables -/

/-- A variable, and the text of its initial value. -/
structure Variable where
  name : String
  init : Option Source

/-- The variable as a phrase takes it. -/
def Variable.phrase (v : Variable) : String × Option String :=
  (v.name, v.init.map Source.text)

/-- The variable as it is read. -/
def Variable.declarator (t : TypeRef) (v : Variable) : Declarator :=
  ⟨v.name, t, v.init.map fun s => .value s.expr⟩

theorem takes_initializer (s : Source) :
    Takes (Grammar.initializer .ruby : Reader n Initializer)
      (node "variableInitializer" [expression s.text] :: rest) (.value s.expr) rest := by
  refine takes_inside rfl fun _ => ?_
  rw [initializerIn]
  exact takes_if_not rfl ((takes_expression s).bind takes_pure)

theorem takes_declaratorId (t : TypeRef) (ident : String) :
    Takes (declaratorId t : Reader n (String × TypeRef))
      (node "variableDeclaratorId" [identifier ident] :: rest) (ident, t) rest := by
  refine takes_inside rfl fun _ => (takes_identifier ident).bind ?_
  exact Takes.bind (takes_no_dims rfl) takes_pure

theorem takes_declarators (t : TypeRef) {vars : List Variable} (hne : vars ≠ []) :
    Takes (Grammar.declarators .ruby t : Reader n (List Declarator))
      (variableDeclarators (vars.map Variable.phrase) :: rest) (vars.map (Variable.declarator t))
      rest := by
  refine takes_inside rfl fun _ => ?_
  show Takes _ (separated "," ((vars.map Variable.phrase).map _)) _ _
  rw [List.map_map]
  refine takes_separated_all hne (fun v _ _ _ => takes_inside rfl fun _ => ?_) (by decide)
  obtain ⟨ident, init⟩ := v
  cases init with
  | none => exact (takes_declaratorId t ident).bind (takes_if_no_token rfl takes_pure)
  | some s =>
    exact (takes_declaratorId t ident).bind (takes_if_token rfl ((takes_initializer s).bind takes_pure))

end Rubify.Phrase
