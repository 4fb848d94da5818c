import Rubify.Grammar.Unit
import Rubify.Proofs.Grammar.Alike

/-!
# Reading trees that differ in their expressions

Each reader of the grammar follows itself on alike children. So a tree whose expressions can all be
read is read if an alike tree is; otherwise it fails with the error of the first that cannot.
-/

namespace Rubify

variable {n n' : Node} {α β : Type}

namespace Grammar

open MonadWalk Reader Syntax

/-! ## Types and names -/

theorem loosely_dims : Loosely (dims : Reader n _) (dims : Reader n' _) := by
  refine (loosely_gather ?_).andThen fun _ _ => loosely_pure
  refine (agree_tryToken rfl).cases fun found => ?_
  cases found with
  | true => exact (loosely_token rfl).andThen fun _ _ => follows_pure rfl
  | false => exact follows_pure rfl

mutual

theorem loosely_typeIn (n n' : Node) : Loosely (typeIn n) (typeIn n') := by
  rw [typeIn.eq_def n, typeIn.eq_def n']
  refine agree_nextIs.cases fun _ => follows_join ?_ ?_ fun _ _ => ?_
  · exact follows_inside rfl fun _ _ _ _ => (agree_expect rfl).cases fun _ => loosely_pure
  · refine follows_inside rfl fun c hc c' _ => ?_
    have := Node.count_lt_of_mem hc
    exact loosely_classTypeIn c c'
  · exact loosely_dims.andThen fun _ _ => loosely_pure
termination_by n.count

theorem loosely_classTypeIn (n n' : Node) : Loosely (classTypeIn n) (classTypeIn n') := by
  rw [classTypeIn.eq_def n, classTypeIn.eq_def n']
  refine (loosely_separated rfl ?_).andThen fun _ _ => loosely_pure
  refine loosely_name.andThen fun _ _ => ?_
  refine (both_optional rfl fun c hc c' _ => ?_).loosely.andThen fun _ _ => loosely_pure
  have := Node.count_lt_of_mem hc
  exact loosely_typeArgumentsIn c c'
termination_by n.count

theorem loosely_typeArgumentsIn (n n' : Node) :
    Loosely (typeArgumentsIn n) (typeArgumentsIn n') := by
  rw [typeArgumentsIn.eq_def n, typeArgumentsIn.eq_def n']
  refine (loosely_token rfl).andThen fun _ _ => ?_
  refine (loosely_separated rfl ?_).andThen fun _ _ => loosely_token rfl
  refine follows_inside rfl fun c hc c' hc' => ?_
  have hc := Node.count_lt_of_mem hc
  have bounded : Loosely (inside ["type"] fun t _ => typeIn t : Reader c _)
      (inside ["type"] fun t _ => typeIn t : Reader c' _) := by
    refine follows_inside rfl fun t ht t' _ => ?_
    have ht := Node.count_lt_of_mem ht
    exact loosely_typeIn t t'
  refine (agree_tryToken rfl).cases fun found => ?_
  cases found with
  | true =>
    refine (agree_tryMatch rfl).cases fun bound => ?_
    cases bound with
    | some _ => exact bounded.andThen fun _ _ => loosely_pure
    | none => exact loosely_pure
  | false => exact bounded.andThen fun _ _ => loosely_pure
termination_by n.count

end

theorem loosely_type : Loosely (type : Reader n _) (type : Reader n' _) :=
  follows_inside rfl fun c _ c' _ => loosely_typeIn c c'

theorem loosely_typeList : Loosely (typeList : Reader n _) (typeList : Reader n' _) :=
  follows_inside rfl fun _ _ _ _ => loosely_separated rfl loosely_type

theorem loosely_typeParameters :
    Loosely (typeParameters : Reader n _) (typeParameters : Reader n' _) := by
  refine follows_inside rfl fun _ _ _ _ => ?_
  refine (loosely_token rfl).andThen fun _ _ => ?_
  refine (loosely_separated rfl (follows_inside rfl fun _ _ _ _ => ?_)).andThen fun _ _ => ?_
  · refine loosely_name.andThen fun _ _ => ?_
    refine (agree_tryToken rfl).cases fun found => ?_
    cases found with
    | true =>
      refine Follows.andThen (follows_inside rfl fun _ _ _ _ => ?_) fun _ _ => loosely_pure
      exact loosely_separated rfl loosely_type
    | false => exact loosely_pure
  · exact (loosely_token rfl).andThen fun _ _ => loosely_pure

theorem loosely_optionalTypeParameters :
    Loosely (optionalTypeParameters : Reader n _) (optionalTypeParameters : Reader n' _) :=
  agree_nextIs.cases fun _ => follows_ite loosely_typeParameters loosely_pure

theorem loosely_qualifiedName :
    Loosely (qualifiedName : Reader n _) (qualifiedName : Reader n' _) := by
  refine follows_inside rfl fun _ _ _ _ => ?_
  exact (loosely_separated rfl loosely_name).andThen fun _ _ => loosely_pure

theorem loosely_throws : Loosely (throws : Reader n _) (throws : Reader n' _) := by
  refine (agree_tryToken rfl).cases fun _ => follows_ite ?_ loosely_pure
  refine Follows.andThen (follows_inside rfl fun _ _ _ _ => ?_) fun _ _ => loosely_pure
  exact loosely_separated rfl loosely_qualifiedName

/-! ## Expressions -/

/-- What reading one expression node comes to is told by its tokens. -/
theorem tokensIn_cases {c : Node} {rest : List Node} (hrest : rest <:+ n.children) (p : Place n) :
    (∃ tokens q, leaving c rest hrest (tokensIn c (entering c p)) = .ok (tokens, q) ∧
      q.left = rest ∧ c.Spells tokens) ∨
    ∃ e, leaving c rest hrest (tokensIn c (entering c p)) = .error e ∧
      ∀ tokens, ¬ c.Spells tokens := by
  cases htokens : tokensIn c (entering c p) with
  | error e =>
    refine Or.inr ⟨e, rfl, fun tokens hc => ?_⟩
    obtain ⟨q, h, -⟩ := hc.tokensIn (p := entering c p) rfl
    rw [htokens] at h
    cases h
  | ok r =>
    obtain ⟨tokens, q⟩ := r
    rw [leaving]
    cases hleave : Node.leave c.kind q.left with
    | ok texts =>
      exact Or.inl ⟨tokens, _, rfl, rfl,
        Node.spells_of_tokensIn rfl htokens (Node.leave_eq_ok_iff.mp ⟨texts, hleave⟩)⟩
    | error e =>
      refine Or.inr ⟨_, rfl, fun others hc => ?_⟩
      obtain ⟨q', h, hcomments⟩ := hc.tokensIn (p := entering c p) rfl
      rw [htokens] at h
      cases h
      obtain ⟨texts, h⟩ : ∃ texts, Node.leave c.kind q.left = .ok texts :=
        Node.leave_eq_ok_iff.mpr hcomments
      rw [hleave] at h
      cases h

/-- An expression is read on its own: what stands in its place in an alike tree does not matter. -/
theorem loosely_expression :
    Loosely (expression .ruby : Reader n _) (expression .ruby : Reader n' _) := by
  intro p p' hp b q' h'
  obtain ⟨tokens', p₁', hinside', hspelled'⟩ := bind_eq_ok.mp h'
  obtain ⟨c', rest', hc', q₁', hs', hk', -, -, hrest'⟩ := exists_of_inside hinside'
  have hq' : q'.left = rest' := by
    rw [spelled] at hspelled'
    cases he' : Expr.ofTokens tokens' with
    | ok e => rw [he'] at hspelled'; cases hspelled'; exact hrest'
    | error op => rw [he'] at hspelled'; cases hspelled'
  have hskip := Node.alike_skipComments hp
  rw [hs'] at hskip
  obtain ⟨c, rest, hcc', hrests, hs⟩ := List.forall₂_cons_right_iff.mp hskip
  have hkind : c.kind = "expression" := by
    rw [hcc'.kind_eq]
    simpa using hk'
  have hexpressions : Node.expressionsAll p.left = c :: Node.expressionsAll rest := by
    rw [← Node.expressionsAll_skipComments, hs, Node.expressionsAll,
      Node.expressions_of_expression hkind]
    rfl
  obtain ⟨hc, hrest, heq⟩ := inside_of_next (fun c _ => tokensIn c) hs
    (show ["expression"].contains c.kind = true by simp [hkind])
  rcases tokensIn_cases hrest p with ⟨tokens, q, htokens, hq, hspells⟩ | ⟨e, htokens, hnone⟩
  · rw [Succeeds, Fails, show expression .ruby p = spelled tokens q from
      bind_of_ok (heq.trans htokens)]
    cases he : Expr.ofTokens tokens with
    | ok e =>
      refine Or.inl ⟨e, q, ?_, trivial, ?_, ?_⟩
      · rw [spelled, he]
        rfl
      · rw [hq, hq']
        exact hrests
      · have hreads : c.Reads := ⟨tokens, e, hspells, he⟩
        exact ⟨[c], hq ▸ hexpressions, fun x hx => List.mem_singleton.mp hx ▸ hreads⟩
    | error op =>
      have hfails : c.FailsWith (.stepInside op tokens) := Or.inr ⟨tokens, op, hspells, he, rfl⟩
      refine Or.inr ⟨.stepInside op tokens, ?_, .first hexpressions hfails⟩
      rw [spelled, he]
      rfl
  · exact Or.inr ⟨e, bind_of_error (heq.trans htokens), .first hexpressions (Or.inl hnone)⟩

/-! ## Modifiers, variables, parameters and arguments -/

theorem loosely_annotationUse :
    Loosely (annotationUse .ruby : Reader n _) (annotationUse .ruby : Reader n' _) := by
  refine follows_inside rfl fun _ _ _ _ => ?_
  refine (loosely_token rfl).andThen fun _ _ => ?_
  refine loosely_qualifiedName.andThen fun _ _ => ?_
  refine (agree_tryToken rfl).cases fun _ => follows_ite ?_ loosely_pure
  refine agree_nextIs.cases fun _ => follows_ite ?_ (loosely_token rfl)
  exact loosely_expression.andThen fun _ _ => loosely_token rfl

theorem loosely_modifierList {listKind itemKind : String}
    (hlist : [listKind].contains "expression" = false)
    (hitem : [itemKind].contains "expression" = false) :
    Loosely (modifierList .ruby listKind itemKind : Reader n _)
      (modifierList .ruby listKind itemKind : Reader n' _) := by
  refine follows_inside hlist fun _ _ _ _ => ?_
  refine (loosely_many hitem fun _ _ _ _ => ?_).andThen fun _ _ => loosely_pure
  refine (agree_tryMatch rfl).cases fun keyword => ?_
  cases keyword with
  | some _ => exact loosely_pure
  | none => exact loosely_annotationUse.andThen fun _ _ => loosely_pure

theorem loosely_variableModifiers :
    Loosely (variableModifiers .ruby : Reader n _) (variableModifiers .ruby : Reader n' _) :=
  (loosely_modifierList rfl rfl).andThen fun _ _ => loosely_pure

section

variable (type type' : TypeRef)

theorem loosely_declaratorId :
    Loosely (declaratorId type : Reader n _) (declaratorId type' : Reader n' _) := by
  refine follows_inside rfl fun _ _ _ _ => ?_
  refine loosely_name.andThen fun _ _ => ?_
  exact loosely_dims.andThen fun _ _ => loosely_pure

theorem loosely_initializerIn (n n' : Node) :
    Loosely (initializerIn .ruby n) (initializerIn .ruby n') := by
  rw [initializerIn.eq_def .ruby n, initializerIn.eq_def .ruby n']
  refine agree_nextIs.cases fun _ => follows_ite ?_ ?_
  · refine follows_inside rfl fun c hc c' hc' => ?_
    have hc := Node.count_lt_of_mem hc
    have element : Loosely
        (inside ["variableInitializer"] fun e _ => initializerIn .ruby e : Reader c _)
        (inside ["variableInitializer"] fun e _ => initializerIn .ruby e : Reader c' _) := by
      refine follows_inside rfl fun e he e' _ => ?_
      have he := Node.count_lt_of_mem he
      exact loosely_initializerIn e e'
    refine (loosely_token rfl).andThen fun _ _ => ?_
    refine agree_nextIs.cases fun _ => follows_ite ?_ ?_
    · refine element.andThen fun _ _ => ?_
      refine (loosely_gather ?_).andThen fun _ _ => loosely_pure.andThen fun _ _ => ?_
      · refine (agree_tryToken rfl).cases fun _ => follows_ite ?_ (follows_pure rfl)
        refine agree_nextIs.cases fun _ => follows_ite ?_ (follows_pure rfl)
        exact element.andThen fun _ _ => follows_pure rfl
      · exact (loosely_token rfl).andThen fun _ _ => loosely_pure
    · refine loosely_pure.andThen fun _ _ => ?_
      exact (loosely_token rfl).andThen fun _ _ => loosely_pure
  · exact loosely_expression.andThen fun _ _ => loosely_pure
termination_by n.count

theorem loosely_initializer :
    Loosely (initializer .ruby : Reader n _) (initializer .ruby : Reader n' _) :=
  follows_inside rfl fun c _ c' _ => loosely_initializerIn c c'

theorem loosely_declarators :
    Loosely (declarators .ruby type : Reader n _) (declarators .ruby type' : Reader n' _) := by
  refine follows_inside rfl fun _ _ _ _ => loosely_separated rfl ?_
  refine follows_inside rfl fun _ _ _ _ => ?_
  refine (loosely_declaratorId type type').andThen fun _ _ => ?_
  refine (agree_tryToken rfl).cases fun _ => follows_ite ?_ loosely_pure
  exact loosely_initializer.andThen fun _ _ => loosely_pure

theorem loosely_constantRest (constant constant' : String) :
    Loosely (constantRest .ruby constant type : Reader n _)
      (constantRest .ruby constant' type' : Reader n' _) := by
  refine follows_inside rfl fun _ _ _ _ => ?_
  refine loosely_dims.andThen fun _ _ => ?_
  refine (loosely_token rfl).andThen fun _ _ => ?_
  exact loosely_initializer.andThen fun _ _ => loosely_pure

end

theorem loosely_parametersIn (n n' : Node) :
    Loosely (parametersIn .ruby n) (parametersIn .ruby n') := by
  rw [parametersIn.eq_def .ruby n, parametersIn.eq_def .ruby n']
  refine loosely_variableModifiers.andThen fun _ _ => ?_
  refine loosely_type.andThen fun declared declared' => ?_
  refine follows_inside rfl fun c hc c' hc' => ?_
  refine (agree_tryToken rfl).cases fun variadic => ?_
  refine (loosely_declaratorId declared declared').andThen fun _ _ => ?_
  have hc := Node.count_lt_of_mem hc
  refine follows_ite loosely_pure ?_
  refine (agree_tryToken rfl).cases fun _ => follows_join ?_ loosely_pure fun _ _ => loosely_pure
  refine follows_inside rfl fun r hr r' _ => ?_
  have hr := Node.count_lt_of_mem hr
  exact loosely_parametersIn r r'
termination_by n.count

theorem loosely_parameters :
    Loosely (parameters .ruby : Reader n _) (parameters .ruby : Reader n' _) := by
  refine follows_inside rfl fun _ _ _ _ => ?_
  refine (loosely_token rfl).andThen fun _ _ => ?_
  refine (both_optional rfl fun c _ c' _ => loosely_parametersIn c c').loosely.andThen fun _ _ => ?_
  exact (loosely_token rfl).andThen fun _ _ => loosely_pure

theorem loosely_arguments :
    Loosely (arguments .ruby : Reader n _) (arguments .ruby : Reader n' _) := by
  refine follows_inside rfl fun _ _ _ _ => ?_
  refine (loosely_token rfl).andThen fun _ _ => ?_
  refine (both_optional rfl fun _ _ _ _ => ?_).loosely.andThen fun _ _ => ?_
  · exact loosely_separated rfl loosely_expression
  · exact (loosely_token rfl).andThen fun _ _ => loosely_pure

/-! ## Pieces of declarations and statements -/

theorem loosely_signatureRest (comments comments' : List String) (head head' : MethodHead) :
    Loosely (signatureRest .ruby comments head : Reader n _)
      (signatureRest .ruby comments' head' : Reader n' _) := by
  refine loosely_parameters.andThen fun _ _ => ?_
  refine loosely_dims.andThen fun _ _ => ?_
  exact loosely_throws.andThen fun _ _ => loosely_pure

theorem loosely_returnType : Loosely (returnType : Reader n _) (returnType : Reader n' _) :=
  (agree_tryToken rfl).cases fun _ => follows_ite loosely_pure loosely_type

theorem loosely_parExpression :
    Loosely (parExpression .ruby : Reader n _) (parExpression .ruby : Reader n' _) := by
  refine follows_inside rfl fun _ _ _ _ => ?_
  refine (loosely_token rfl).andThen fun _ _ => ?_
  refine loosely_expression.andThen fun _ _ => ?_
  exact (loosely_token rfl).andThen fun _ _ => loosely_pure

theorem loosely_localVariables :
    Loosely (localVariables .ruby : Reader n _) (localVariables .ruby : Reader n' _) := by
  refine follows_inside rfl fun _ _ _ _ => ?_
  refine Follows.andThen (follows_inside rfl fun _ _ _ _ => ?_) fun _ _ => ?_
  · refine loosely_variableModifiers.andThen fun _ _ => ?_
    exact loosely_type.andThen fun type type' => loosely_declarators type type'
  · exact (loosely_token rfl).andThen fun _ _ => loosely_pure

theorem loosely_switchLabels :
    Loosely (switchLabels .ruby : Reader n _) (switchLabels .ruby : Reader n' _) := by
  refine loosely_many rfl fun _ _ _ _ => (agree_tryToken rfl).cases fun _ => follows_ite ?_ ?_
  · exact loosely_pure.andThen fun _ _ => (loosely_token rfl).andThen fun _ _ => loosely_pure
  · refine (loosely_token rfl).andThen fun _ _ => ?_
    refine loosely_expression.andThen fun _ _ => ?_
    refine loosely_pure.andThen fun _ _ => ?_
    exact (loosely_token rfl).andThen fun _ _ => loosely_pure

theorem loosely_invocation :
    Loosely (invocation .ruby : Reader n _) (invocation .ruby : Reader n' _) := by
  refine (both_optional rfl fun _ _ _ _ => ?_).loosely
  refine (agree_expect rfl).cases fun _ => ?_
  refine loosely_arguments.andThen fun _ _ => ?_
  exact (loosely_token rfl).andThen fun _ _ => loosely_pure

theorem loosely_blockRest {statement : (c : Node) → c ∈ n.children → Reader c (List Statement)}
    {statement' : (c : Node) → c ∈ n'.children → Reader c (List Statement)}
    (hs : ∀ c hc c' hc', Loosely (statement c hc) (statement' c' hc')) :
    Loosely (blockRest statement) (blockRest statement') := by
  refine (loosely_many rfl hs).andThen fun _ _ => ?_
  refine (loosely_token rfl).andThen fun _ _ => ?_
  exact loosely_takeComments.andThen fun _ _ => loosely_pure

theorem loosely_typeBody {kind : String} {member : (c : Node) → c ∈ n.children → Reader c α}
    {member' : (c : Node) → c ∈ n'.children → Reader c β}
    (hkind : [kind].contains "expression" = false)
    (hm : ∀ c hc c' hc', Loosely (member c hc) (member' c' hc')) :
    Loosely (typeBody kind member) (typeBody kind member') := by
  refine (loosely_token rfl).andThen fun _ _ => ?_
  refine loosely_takeComments.andThen fun _ _ => ?_
  refine (loosely_many hkind hm).andThen fun _ _ => ?_
  refine (loosely_token rfl).andThen fun _ _ => ?_
  exact loosely_takeComments.andThen fun _ _ => loosely_pure

theorem loosely_constants (first first' : String) (type type' : TypeRef) :
    Loosely (constants .ruby first type : Reader n _)
      (constants .ruby first' type' : Reader n' _) := by
  refine follows_inside rfl fun _ _ _ _ => ?_
  refine (loosely_constantRest type type' first first').andThen fun _ _ => ?_
  refine (loosely_gather_behind rfl ?_).andThen fun _ _ => loosely_pure
  refine follows_inside rfl fun _ _ _ _ => ?_
  refine loosely_name.andThen fun constant constant' => ?_
  exact loosely_constantRest type type' constant constant'

theorem loosely_annotationType :
    Loosely (annotationType .ruby : Reader n _) (annotationType .ruby : Reader n' _) := by
  refine (loosely_token rfl).andThen fun _ _ => ?_
  refine (loosely_token rfl).andThen fun _ _ => ?_
  refine loosely_name.andThen fun _ _ => ?_
  refine Follows.andThen (follows_inside rfl fun _ _ _ _ => ?_) fun _ _ => ?_
  · refine (loosely_token rfl).andThen fun _ _ => ?_
    refine (loosely_many rfl fun _ _ _ _ => ?_).andThen fun _ _ => loosely_token rfl
    refine (loosely_modifierList rfl rfl).andThen fun _ _ => ?_
    refine follows_inside rfl fun _ _ _ _ => ?_
    refine loosely_type.andThen fun _ _ => ?_
    refine Follows.andThen (follows_inside rfl fun _ _ _ _ => ?_) fun _ _ => loosely_token rfl
    refine follows_inside rfl fun _ _ _ _ => ?_
    refine loosely_name.andThen fun _ _ => ?_
    exact (loosely_token rfl).andThen fun _ _ => loosely_token rfl
  · exact loosely_takeComments.andThen fun _ _ => loosely_pure

theorem loosely_interfaceMethod {kind : String} (hkind : [kind].contains "expression" = false)
    (comments comments' : List String) (head head' : MethodHead) :
    Loosely (interfaceMethod .ruby kind comments head : Reader n _)
      (interfaceMethod .ruby kind comments' head' : Reader n' _) := by
  refine follows_inside hkind fun _ _ _ _ => ?_
  refine (loosely_signatureRest comments comments' head head').andThen fun _ _ => ?_
  exact (loosely_token rfl).andThen fun _ _ => loosely_pure

theorem loosely_refuseNext {kinds kinds' : List String} :
    Loosely (refuseNext kinds : Reader n α) (refuseNext kinds' : Reader n' β) := by
  refine Follows.andThen (loosely_pure.andThen fun _ _ => ?_) fun _ _ => follows_throw
  exact agree_peekKind.loosely.andThen fun _ _ => loosely_pure

/-! ## Declarations, members and statements -/

-- The readers call each other on children, so their lemmas go by the size of the node on the left.
mutual

theorem loosely_declarationIn (n n' : Node) :
    Loosely (declarationIn .ruby n) (declarationIn .ruby n') := by
  rw [declarationIn.eq_def .ruby n, declarationIn.eq_def .ruby n']
  refine loosely_takeComments.andThen fun _ _ => ?_
  refine (loosely_modifierList rfl rfl).andThen fun _ _ => ?_
  refine agree_nextIs.cases fun _ => follows_ite ?_ ?_
  · refine Follows.andThen (follows_inside rfl fun c hc c' _ => ?_) fun _ _ => loosely_pure
    have := Node.count_lt_of_mem hc
    exact loosely_classIn _ _ c c'
  · refine agree_nextIs.cases fun _ => follows_ite ?_ loosely_refuseNext
    refine Follows.andThen (follows_inside rfl fun c hc c' _ => ?_) fun _ _ => loosely_pure
    have := Node.count_lt_of_mem hc
    exact loosely_interfaceIn c c'
termination_by n.count

theorem loosely_classIn (static static' : Bool) (n n' : Node) :
    Loosely (classIn .ruby static n) (classIn .ruby static' n') := by
  rw [classIn.eq_def .ruby static n, classIn.eq_def .ruby static' n']
  refine agree_nextIs.cases fun _ => follows_ite ?_ ?_
  · refine follows_inside rfl fun c hc c' _ => ?_
    have := Node.count_lt_of_mem hc
    exact loosely_enumIn c c'
  · refine follows_inside rfl fun c hc c' _ => ?_
    have hc := Node.count_lt_of_mem hc
    refine (loosely_token rfl).andThen fun _ _ => ?_
    refine loosely_name.andThen fun _ _ => ?_
    refine loosely_optionalTypeParameters.andThen fun _ _ => ?_
    refine (agree_tryToken rfl).cases fun _ => ?_
    refine follows_join (loosely_type.map fun _ _ _ => trivial) loosely_pure fun _ _ => ?_
    refine (agree_tryToken rfl).cases fun _ => ?_
    refine follows_join loosely_typeList loosely_pure fun _ _ => ?_
    refine Follows.andThen (follows_inside rfl fun b hb b' _ => ?_) fun _ _ => loosely_pure
    have := Node.count_lt_of_mem hb
    exact loosely_classBodyIn b b'
termination_by n.count

theorem loosely_classBodyIn (n n' : Node) :
    Loosely (classBodyIn .ruby n) (classBodyIn .ruby n') := by
  rw [classBodyIn.eq_def .ruby n, classBodyIn.eq_def .ruby n']
  refine loosely_typeBody rfl fun c hc c' _ => ?_
  have := Node.count_lt_of_mem hc
  exact loosely_memberIn c c'
termination_by n.count

theorem loosely_memberIn (n n' : Node) : Loosely (memberIn .ruby n) (memberIn .ruby n') := by
  rw [memberIn.eq_def .ruby n, memberIn.eq_def .ruby n']
  refine loosely_takeComments.andThen fun comments comments' => ?_
  refine (agree_tryToken rfl).cases fun _ => follows_ite loosely_pure ?_
  -- what comes behind the two early ends is read from two places
  have member : Loosely
      (do
        let words ← modifiers .ruby
        inside ["memberDecl"] fun c _ => memberDeclIn .ruby comments words c : Reader n _)
      (do
        let words ← modifiers .ruby
        inside ["memberDecl"] fun c _ => memberDeclIn .ruby comments' words c : Reader n' _) := by
    refine (loosely_modifierList rfl rfl).andThen fun words words' => ?_
    refine follows_inside rfl fun c hc c' _ => ?_
    have := Node.count_lt_of_mem hc
    exact loosely_memberDeclIn comments comments' words words' c c'
  refine agree_nextIs.cases fun _ => follows_ite ?_ member
  refine (agree_tryToken rfl).cases fun _ => follows_ite ?_ ?_
  · refine Follows.andThen (follows_inside rfl fun c hc c' _ => ?_) fun _ _ => loosely_pure
    have := Node.count_lt_of_mem hc
    exact loosely_blockIn c c'
  · exact follows_throw.andThen fun _ _ => member
termination_by n.count

theorem loosely_memberDeclIn (comments comments' words words' : List String) (n n' : Node) :
    Loosely (memberDeclIn .ruby comments words n) (memberDeclIn .ruby comments' words' n') := by
  rw [memberDeclIn.eq_def .ruby comments words n, memberDeclIn.eq_def .ruby comments' words' n']
  refine agree_peekKind.cases fun kind => ?_
  split
  · refine follows_inside rfl fun c hc c' _ => ?_
    refine loosely_typeParameters.andThen fun _ _ => ?_
    refine follows_inside rfl fun r hr r' _ => ?_
    refine agree_nextIs.cases fun _ => follows_ite ?_ ?_
    · refine loosely_name.andThen fun _ _ => ?_
      refine follows_inside rfl fun b hb b' _ => ?_
      have hc := Node.count_lt_of_mem hc
      have hr := Node.count_lt_of_mem hr
      have hb := Node.count_lt_of_mem hb
      exact loosely_constructorIn _ _ _ _ b b'
    · refine loosely_returnType.andThen fun _ _ => ?_
      refine loosely_name.andThen fun _ _ => ?_
      refine follows_inside rfl fun b hb b' _ => ?_
      have hc := Node.count_lt_of_mem hc
      have hr := Node.count_lt_of_mem hr
      have hb := Node.count_lt_of_mem hb
      exact loosely_methodIn _ _ _ _ _ _ b b'
  · refine follows_inside rfl fun c hc c' _ => ?_
    refine loosely_type.andThen fun declared declared' => ?_
    refine agree_nextIs.cases fun _ => follows_ite ?_ ?_
    · refine follows_inside rfl fun _ _ _ _ => ?_
      refine (loosely_declarators declared declared').andThen fun _ _ => ?_
      exact (loosely_token rfl).andThen fun _ _ => loosely_pure
    · refine follows_inside rfl fun m hm m' _ => ?_
      refine loosely_name.andThen fun _ _ => ?_
      refine follows_inside rfl fun b hb b' _ => ?_
      have hc := Node.count_lt_of_mem hc
      have hm := Node.count_lt_of_mem hm
      have hb := Node.count_lt_of_mem hb
      exact loosely_methodIn _ _ _ _ _ _ b b'
  · refine (loosely_token rfl).andThen fun _ _ => ?_
    refine loosely_name.andThen fun _ _ => ?_
    refine follows_inside rfl fun b hb b' _ => ?_
    have hb := Node.count_lt_of_mem hb
    exact loosely_methodIn _ _ _ _ _ _ b b'
  · refine loosely_name.andThen fun _ _ => ?_
    refine follows_inside rfl fun b hb b' _ => ?_
    have hb := Node.count_lt_of_mem hb
    exact loosely_constructorIn _ _ _ _ b b'
  · refine follows_inside rfl fun c hc c' _ => ?_
    have hc := Node.count_lt_of_mem hc
    exact (loosely_interfaceIn c c').andThen fun _ _ => loosely_pure
  · refine follows_inside rfl fun c hc c' _ => ?_
    have hc := Node.count_lt_of_mem hc
    exact (loosely_classIn _ _ c c').andThen fun _ _ => loosely_pure
  · exact loosely_refuseNext
termination_by n.count

theorem loosely_methodIn (comments comments' words words' : List String) (head head' : MethodHead)
    (n n' : Node) : Loosely (methodIn .ruby comments words head n)
      (methodIn .ruby comments' words' head' n') := by
  rw [methodIn.eq_def .ruby comments words head n, methodIn.eq_def .ruby comments' words' head' n']
  refine (loosely_signatureRest comments comments' head head').andThen fun _ _ => ?_
  refine (agree_tryToken rfl).cases fun _ => follows_join loosely_pure ?_ fun _ _ => loosely_pure
  refine follows_inside rfl fun c hc c' _ => ?_
  refine Follows.andThen (follows_inside rfl fun b hb b' _ => ?_) fun _ _ => loosely_pure
  have hc := Node.count_lt_of_mem hc
  have hb := Node.count_lt_of_mem hb
  exact loosely_blockIn b b'
termination_by n.count

theorem loosely_constructorIn (comments comments' generics generics' : List String) (n n' : Node) :
    Loosely (constructorIn .ruby comments generics n)
      (constructorIn .ruby comments' generics' n') := by
  rw [constructorIn.eq_def .ruby comments generics n,
    constructorIn.eq_def .ruby comments' generics' n']
  refine loosely_parameters.andThen fun _ _ => ?_
  refine loosely_throws.andThen fun _ _ => ?_
  refine follows_inside rfl fun c hc c' _ => ?_
  refine (loosely_token rfl).andThen fun _ _ => ?_
  refine loosely_invocation.andThen fun _ _ => ?_
  refine (loosely_blockRest fun s hs s' _ => ?_).andThen fun _ _ => loosely_pure
  have hc := Node.count_lt_of_mem hc
  have hs := Node.count_lt_of_mem hs
  exact loosely_blockStatementIn s s'
termination_by n.count

theorem loosely_enumIn (n n' : Node) : Loosely (enumIn .ruby n) (enumIn .ruby n') := by
  rw [enumIn.eq_def .ruby n, enumIn.eq_def .ruby n']
  refine (loosely_token rfl).andThen fun _ _ => ?_
  refine loosely_name.andThen fun _ _ => ?_
  refine (agree_tryToken rfl).cases fun _ => ?_
  refine follows_join loosely_typeList loosely_pure fun _ _ => ?_
  refine follows_inside rfl fun c hc c' _ => ?_
  have hc := Node.count_lt_of_mem hc
  refine (loosely_token rfl).andThen fun _ _ => ?_
  refine loosely_takeComments.andThen fun _ _ => ?_
  refine (both_optional rfl fun e he e' _ => ?_).loosely.andThen fun _ _ => ?_
  · refine loosely_separated rfl (follows_inside rfl fun k hk k' _ => ?_)
    have he := Node.count_lt_of_mem he
    have hk := Node.count_lt_of_mem hk
    exact loosely_enumConstantIn k k'
  refine (agree_tryToken rfl).cases fun _ => ?_
  refine (both_optional rfl fun b hb b' _ => ?_).loosely.andThen fun _ _ => ?_
  · refine (loosely_token rfl).andThen fun _ _ => loosely_many rfl fun m hm m' _ => ?_
    have hb := Node.count_lt_of_mem hb
    have hm := Node.count_lt_of_mem hm
    exact loosely_memberIn m m'
  refine (loosely_token rfl).andThen fun _ _ => ?_
  exact loosely_takeComments.andThen fun _ _ => loosely_pure
termination_by n.count

theorem loosely_enumConstantIn (n n' : Node) :
    Loosely (enumConstantIn .ruby n) (enumConstantIn .ruby n') := by
  rw [enumConstantIn.eq_def .ruby n, enumConstantIn.eq_def .ruby n']
  refine loosely_takeComments.andThen fun _ _ => ?_
  refine (loosely_gather ?_).andThen fun _ _ => ?_
  · refine agree_nextIs.cases fun _ => follows_ite ?_ (follows_pure rfl)
    exact loosely_annotationUse.andThen fun _ _ => follows_pure rfl
  refine loosely_name.andThen fun _ _ => ?_
  refine agree_nextIs.cases fun _ => ?_
  refine follows_join loosely_arguments loosely_pure fun _ _ => ?_
  refine (both_optional rfl fun c hc c' _ => ?_).loosely.andThen fun _ _ => loosely_pure
  have hc := Node.count_lt_of_mem hc
  exact loosely_classBodyIn c c'
termination_by n.count

theorem loosely_interfaceIn (n n' : Node) :
    Loosely (interfaceIn .ruby n) (interfaceIn .ruby n') := by
  rw [interfaceIn.eq_def .ruby n, interfaceIn.eq_def .ruby n']
  refine agree_nextIs.cases fun _ => follows_ite ?_ ?_
  · exact follows_inside rfl fun _ _ _ _ => loosely_annotationType
  refine follows_inside rfl fun c hc c' _ => ?_
  have hc := Node.count_lt_of_mem hc
  refine (loosely_token rfl).andThen fun _ _ => ?_
  refine loosely_name.andThen fun _ _ => ?_
  refine loosely_optionalTypeParameters.andThen fun _ _ => ?_
  refine (agree_tryToken rfl).cases fun _ => ?_
  refine follows_join loosely_typeList loosely_pure fun _ _ => ?_
  refine Follows.andThen (follows_inside rfl fun b hb b' _ => ?_) fun _ _ => loosely_pure
  refine loosely_typeBody rfl fun m hm m' _ => ?_
  have hb := Node.count_lt_of_mem hb
  have hm := Node.count_lt_of_mem hm
  exact loosely_interfaceMemberIn m m'
termination_by n.count

theorem loosely_interfaceMemberIn (n n' : Node) :
    Loosely (interfaceMemberIn .ruby n) (interfaceMemberIn .ruby n') := by
  rw [interfaceMemberIn.eq_def .ruby n, interfaceMemberIn.eq_def .ruby n']
  refine loosely_takeComments.andThen fun comments comments' => ?_
  refine (agree_tryToken rfl).cases fun _ => follows_ite loosely_pure ?_
  refine (loosely_modifierList rfl rfl).andThen fun _ _ => ?_
  refine follows_inside rfl fun c hc c' _ => ?_
  refine agree_peekKind.cases fun kind => ?_
  have hc := Node.count_lt_of_mem hc
  split
  · refine follows_inside rfl fun _ _ _ _ => ?_
    refine loosely_type.andThen fun declared declared' => ?_
    refine loosely_name.andThen fun member member' => ?_
    refine follows_inside rfl fun _ _ _ _ => ?_
    refine agree_nextIs.cases fun _ => follows_ite ?_ ?_
    · exact loosely_interfaceMethod rfl comments comments' _ _
    · refine (loosely_constants member member' declared declared').andThen fun _ _ => ?_
      exact (loosely_token rfl).andThen fun _ _ => loosely_pure
  · refine follows_inside rfl fun _ _ _ _ => ?_
    refine loosely_typeParameters.andThen fun _ _ => ?_
    refine loosely_returnType.andThen fun _ _ => ?_
    refine loosely_name.andThen fun _ _ => ?_
    exact loosely_interfaceMethod rfl comments comments' _ _
  · refine (loosely_token rfl).andThen fun _ _ => ?_
    refine loosely_name.andThen fun _ _ => ?_
    exact loosely_interfaceMethod rfl comments comments' _ _
  · refine follows_inside rfl fun s hs s' _ => ?_
    have hs := Node.count_lt_of_mem hs
    exact (loosely_interfaceIn s s').andThen fun _ _ => loosely_pure
  · refine follows_inside rfl fun s hs s' _ => ?_
    have hs := Node.count_lt_of_mem hs
    exact (loosely_classIn _ _ s s').andThen fun _ _ => loosely_pure
  · exact loosely_refuseNext
termination_by n.count

theorem loosely_blockIn (n n' : Node) : Loosely (blockIn .ruby n) (blockIn .ruby n') := by
  rw [blockIn.eq_def .ruby n, blockIn.eq_def .ruby n']
  refine (loosely_token rfl).andThen fun _ _ => ?_
  refine loosely_blockRest fun c hc c' _ => ?_
  have hc := Node.count_lt_of_mem hc
  exact loosely_blockStatementIn c c'
termination_by n.count

theorem loosely_blockStatementIn (n n' : Node) :
    Loosely (blockStatementIn .ruby n) (blockStatementIn .ruby n') := by
  rw [blockStatementIn.eq_def .ruby n, blockStatementIn.eq_def .ruby n']
  refine loosely_takeComments.andThen fun _ _ => ?_
  refine agree_nextIs.cases fun _ => follows_ite ?_ ?_
  · refine Follows.andThen (follows_inside rfl fun c hc c' _ => ?_) fun _ _ => loosely_pure
    have hc := Node.count_lt_of_mem hc
    exact (loosely_declarationIn c c').andThen fun _ _ => loosely_pure
  refine agree_nextIs.cases fun _ => follows_ite ?_ ?_
  · exact loosely_localVariables.andThen fun _ _ => loosely_pure.andThen fun _ _ => loosely_pure
  · refine Follows.andThen (follows_inside rfl fun c hc c' _ => ?_) fun _ _ =>
      loosely_pure.andThen fun _ _ => loosely_pure
    have hc := Node.count_lt_of_mem hc
    exact loosely_statementIn c c'
termination_by n.count

theorem loosely_statementIn (n n' : Node) :
    Loosely (statementIn .ruby n) (statementIn .ruby n') := by
  rw [statementIn.eq_def .ruby n, statementIn.eq_def .ruby n']
  have branch : Loosely
      (do
        let s ← inside ["statement"] fun c _ => statementIn .ruby c
        return branchOf s : Reader n _)
      (do
        let s ← inside ["statement"] fun c _ => statementIn .ruby c
        return branchOf s : Reader n' _) := by
    refine Follows.andThen (follows_inside rfl fun c hc c' _ => ?_) fun _ _ => loosely_pure
    have hc := Node.count_lt_of_mem hc
    exact loosely_statementIn c c'
  refine agree_peekKind.cases fun kind => ?_
  split
  · refine Follows.andThen (follows_inside rfl fun c hc c' _ => ?_) fun _ _ => loosely_pure
    have hc := Node.count_lt_of_mem hc
    exact loosely_blockIn c c'
  · refine (loosely_token rfl).andThen fun _ _ => ?_
    refine loosely_parExpression.andThen fun _ _ => ?_
    refine branch.andThen fun _ _ => ?_
    refine (agree_tryToken rfl).cases fun _ => ?_
    exact follows_join (branch.map fun _ _ _ => trivial) loosely_pure fun _ _ => loosely_pure
  · refine (loosely_token rfl).andThen fun _ _ => ?_
    refine loosely_parExpression.andThen fun _ _ => ?_
    exact branch.andThen fun _ _ => loosely_pure
  · refine (loosely_token rfl).andThen fun _ _ => ?_
    refine loosely_parExpression.andThen fun _ _ => ?_
    refine (loosely_token rfl).andThen fun _ _ => ?_
    refine (both_optional rfl fun c hc c' _ => ?_).loosely.andThen fun _ _ => ?_
    · refine loosely_many rfl fun g hg g' _ => ?_
      refine loosely_switchLabels.andThen fun _ _ => ?_
      refine (loosely_many rfl fun s hs s' _ => ?_).andThen fun _ _ => loosely_pure
      have hc := Node.count_lt_of_mem hc
      have hg := Node.count_lt_of_mem hg
      have hs := Node.count_lt_of_mem hs
      exact loosely_blockStatementIn s s'
    · exact (loosely_token rfl).andThen fun _ _ => loosely_pure
  · refine (loosely_token rfl).andThen fun _ _ => ?_
    refine agree_nextIs.cases fun _ => ?_
    refine follows_join (loosely_expression.map fun _ _ _ => trivial) loosely_pure fun _ _ => ?_
    exact (loosely_token rfl).andThen fun _ _ => loosely_pure
  · refine (loosely_token rfl).andThen fun _ _ => ?_
    refine loosely_expression.andThen fun _ _ => ?_
    exact (loosely_token rfl).andThen fun _ _ => loosely_pure
  · refine (loosely_token rfl).andThen fun _ _ => ?_
    refine agree_nextIs.cases fun _ => ?_
    refine follows_join (loosely_name.map fun _ _ _ => trivial) loosely_pure fun _ _ => ?_
    exact (loosely_token rfl).andThen fun _ _ => loosely_pure
  · exact (loosely_token rfl).andThen fun _ _ => loosely_pure
  · refine Follows.andThen (follows_inside rfl fun _ _ _ _ => loosely_expression) fun _ _ => ?_
    exact (loosely_token rfl).andThen fun _ _ => loosely_pure
  · refine loosely_name.andThen fun _ _ => ?_
    refine (loosely_token rfl).andThen fun _ _ => ?_
    exact branch.andThen fun _ _ => loosely_pure
  · exact loosely_refuseNext
termination_by n.count

end

/-! ## Compilation units -/

theorem loosely_importIn : Loosely (importIn : Reader n _) (importIn : Reader n' _) := by
  refine (loosely_token rfl).andThen fun _ _ => ?_
  refine (agree_tryToken rfl).cases fun _ => ?_
  refine loosely_qualifiedName.andThen fun _ _ => ?_
  refine (agree_tryToken rfl).cases fun _ => follows_ite ?_ ?_
  · exact (loosely_token rfl).andThen fun _ _ => (loosely_token rfl).andThen fun _ _ => loosely_pure
  · exact (loosely_token rfl).andThen fun _ _ => loosely_pure

theorem loosely_unit : Loosely (unit .ruby : Reader n _) (unit .ruby : Reader n' _) := by
  refine follows_inside rfl fun _ _ _ _ => ?_
  refine (both_optional rfl fun _ _ _ _ => ?_).loosely.andThen fun _ _ => ?_
  · refine (loosely_token rfl).andThen fun _ _ => ?_
    refine loosely_qualifiedName.andThen fun _ _ => ?_
    exact (loosely_token rfl).andThen fun _ _ => loosely_pure
  refine loosely_takeComments.andThen fun _ _ => ?_
  refine (loosely_many rfl fun _ _ _ _ => loosely_importIn).andThen fun _ _ => ?_
  refine (loosely_many rfl fun _ _ _ _ => ?_).andThen fun _ _ => loosely_pure
  refine (agree_tryToken rfl).cases fun _ => follows_ite loosely_pure ?_
  refine Follows.map (R := fun _ _ => True) ?_ fun _ _ _ => trivial
  exact follows_inside rfl fun c _ c' _ => loosely_declarationIn c c'

/-- A tree that is read is taken to its end. -/
theorem exists_of_readUnit {d : Dialect} {tree : Node} {u : CompilationUnit}
    (h : readUnit d tree = .ok u) :
    ∃ v q texts, (unit d : Reader (above tree) _) ⟨[tree], List.suffix_refl _, []⟩ = .ok (v, q) ∧
      Node.leave Node.aboveRoot q.left = .ok texts := by
  cases hread : readTree tree (unit d) with
  | error e =>
    rw [readUnit, hread] at h
    cases h
  | ok r =>
    unfold readTree at hread
    split at hread
    · cases hread
    · rename_i v q hunit
      split at hread
      · cases hread
      · rename_i texts hleave
        exact ⟨v, q, texts, hunit, hleave⟩

/-- **A tree is read like an alike one that is read**, if all its expressions can be read; otherwise
its error is that of the first that cannot. -/
theorem readUnit_of_alike {tree tree' : Node} (h : tree.Alike tree') {u' : CompilationUnit}
    (h' : readUnit .ruby tree' = .ok u') :
    (∃ u, readUnit .ruby tree = .ok u ∧ ∀ x ∈ tree.expressions, x.Reads) ∨
      ∃ e, readUnit .ruby tree = .error e ∧ Blames [tree] e := by
  obtain ⟨v', q', texts', hunit', hleave'⟩ := exists_of_readUnit h'
  unfold readUnit readTree
  rcases loosely_unit (⟨[tree], List.suffix_refl _, []⟩ : Place (above tree)) _ (.cons h .nil) _ _
      hunit' with ⟨v, q, hunit, -, hq, read, hcov, hread⟩ | ⟨e, hunit, he⟩
  · have hcomments := Node.alike_comments hq (Node.leave_eq_ok_iff.mp ⟨texts', hleave'⟩)
    obtain ⟨texts, hleave⟩ : ∃ texts, Node.leave Node.aboveRoot q.left = .ok texts :=
      Node.leave_eq_ok_iff.mpr hcomments
    rw [Node.expressionsAll_comments hcomments, List.append_nil, Node.expressionsAll_singleton]
      at hcov
    rw [hunit]
    refine Or.inl ⟨{ v with trailing := q.comments ++ texts }, ?_, hcov ▸ hread⟩
    dsimp only
    rw [hleave]
    rfl
  · rw [hunit]
    exact Or.inr ⟨e, rfl, he⟩

end Grammar

end Rubify
