import Rubify.Proofs.Phrase.Pieces
import Rubify.Proofs.Program.Growth

/-!
# Reading phrases: statements

A body in words is a list of `Item`s: statements, variables of one type, and types. Its words are
texts that are read as expressions and trees that are read as types, so every body in words has
phrases (`itemNodes`) and a meaning. The meaning is given without the grammar: `itemStmts` are the
statements, in the order of the source, and `itemClasses` the types to be declared. A block that
another statement controls is its statements (`flattened`); any other block is kept.

Both halves of what is done to a body are run on its phrases: reading gives one statement for each
item (`takes_sentence`), and lowering gives the meaning of each (`lower_sentence`). The expressions
behind a type know it, so the meaning of an item depends on the types in front of it.

Headline:
* **`lowerAll_blockStatements`**: the phrases of a body are read back as what they stand for.
-/

namespace Rubify.Phrase

open Grammar MonadWalk Reader Syntax Program

variable {n : Node} {rest : List Node}

/-! ## Statements in words -/

/-- A tree that is read as a type declared inside a body. -/
structure LocalClass where
  decl : Node
  type : TypeDecl
  reads : readTree decl (inside ["classOrInterfaceDeclaration"] fun c _ => declarationIn .ruby c) =
    .ok (([], type), [])

mutual

/-- A statement. -/
inductive Sentence
  | expr (source : Source)
  | block (body : List Item)
  | ifThen (condition : Source) (thenBranch : Sentence) (elseBranch : Option Sentence)
  | loop (condition : Source) (body : Sentence)
  | switch (value : Source) (groups : List Group)
  | return (value : Option Source)
  | throw (value : Source)
  | leave (label : Option String)
  | labeled (label : String) (body : Sentence)

/-- Something that stands in a body. -/
inductive Item
  | sentence (s : Sentence)
  /-- At least one variable, all of one type. -/
  | locals (type : String) (first : Variable) (more : List Variable)
  | localClass (c : LocalClass)

/-- A group of a switch; a label without value is `default`. -/
inductive Group
  | mk (labels : List (Option Source)) (body : List Item)

end

mutual

/-- The phrase of a statement. -/
def Sentence.node : Sentence → Node
  | .expr source => expressionStatement source.text
  | .block body => blockStatement (itemNodes body)
  | .ifThen condition thenBranch elseBranch =>
    ifStatement condition.text thenBranch.node (elseNode elseBranch)
  | .loop condition body => whileStatement condition.text body.node
  | .switch value groups => switchStatement value.text (groupNodes groups)
  | .return value => returnStatement (value.map Source.text)
  | .throw value => throwStatement value.text
  | .leave label => breakStatement label
  | .labeled label body => labeledStatement label body.node

/-- The phrase of an else branch. -/
def elseNode : Option Sentence → Option Node
  | none => none
  | some s => some s.node

/-- The phrase of something in a body. -/
def Item.node : Item → Node
  | .sentence s => s.node
  | .locals type first more => localVariables type ((first :: more).map Variable.phrase)
  | .localClass c => localType c.decl

/-- The phrases of a body. -/
def itemNodes : List Item → List Node
  | [] => []
  | i :: more => i.node :: itemNodes more

/-- The groups of a switch as a phrase takes them. -/
def groupNodes : List Group → List (List (Option String) × List Node)
  | [] => []
  | ⟨labels, body⟩ :: more => (labels.map (·.map Source.text), itemNodes body) :: groupNodes more

end

mutual

/-- The statement as it is read. -/
def Sentence.read : Sentence → Statement
  | .expr source => .expr source.expr
  | .block body => .block (readItems body)
  | .ifThen condition thenBranch elseBranch =>
    .ifThen condition.expr (branchOf thenBranch.read) (readElse elseBranch)
  | .loop condition body => .loop condition.expr (branchOf body.read)
  | .switch value groups => .switch value.expr (readGroups groups)
  | .return value => .return (value.map Source.expr)
  | .throw value => .throw value.expr
  | .leave label => .leave label
  | .labeled label body => .labeled label (branchOf body.read)

/-- An else branch as it is read. -/
def readElse : Option Sentence → Option (List Statement)
  | none => none
  | some s => some (branchOf s.read)

/-- Something in a body as it is read. -/
def Item.read : Item → Statement
  | .sentence s => s.read
  | .locals type first more =>
    .variables ((first :: more).map (Variable.declarator (typeRef type)))
  | .localClass c => .type [] c.type

/-- A body as it is read. -/
def readItems : List Item → List Statement
  | [] => []
  | i :: more => i.read :: readItems more

/-- The groups of a switch as they are read. -/
def readGroups : List Group → List (SwitchGroup Statement)
  | [] => []
  | ⟨labels, body⟩ :: more =>
    ⟨labels.map (·.map Source.expr), readItems body⟩ :: readGroups more

end

/-! ## Reading -/

/-- Something in a body, as a block statement. -/
def Item.wrapped : Item → Node
  | .sentence s => Phrase.node "blockStatement" [s.node]
  | .locals type first more => localVariables type ((first :: more).map Variable.phrase)
  | .localClass c => localType c.decl

theorem kind_sentence (s : Sentence) : s.node.kind = "statement" := by
  cases s <;> rw [Sentence.node] <;> rfl

theorem kind_wrapped (i : Item) : i.wrapped.kind = "blockStatement" := by
  cases i <;> rfl

theorem itemNodes_eq (items : List Item) : itemNodes items = items.map Item.node := by
  induction items with
  | nil => rfl
  | cons i more ih => rw [itemNodes, ih, List.map_cons]

theorem readItems_eq (items : List Item) : readItems items = items.flatMap fun i => [i.read] := by
  induction items with
  | nil => rfl
  | cons i more ih => rw [readItems, ih, List.flatMap_cons, List.singleton_append]

/-- The phrase of a group. -/
def Group.node : Group → Node
  | ⟨labels, body⟩ => Phrase.node "switchBlockStatementGroup"
      ((labels.map (·.map Source.text)).map switchLabel ++ blockStatements (itemNodes body))

/-- A group as it is read. -/
def Group.read : Group → SwitchGroup Statement
  | ⟨labels, body⟩ => ⟨labels.map (·.map Source.expr), readItems body⟩

theorem groupNodes_eq (groups : List Group) :
    ((groupNodes groups).map fun (labels, body) => Phrase.node "switchBlockStatementGroup"
      (labels.map switchLabel ++ blockStatements body)) = groups.map Group.node := by
  induction groups with
  | nil => rfl
  | cons g more ih =>
    obtain ⟨labels, body⟩ := g
    rw [groupNodes, List.map_cons, ih, List.map_cons, Group.node]

theorem readGroups_eq (groups : List Group) : readGroups groups = groups.map Group.read := by
  induction groups with
  | nil => rfl
  | cons g more ih =>
    obtain ⟨labels, body⟩ := g
    rw [readGroups, ih, List.map_cons, Group.read]

theorem wrapped_node (i : Item) : wrapped i.node = i.wrapped := by
  cases i with
  | sentence s =>
    have hkind := kind_sentence s
    simp [wrapped, Item.node, Item.wrapped, Node.isComment, hkind]
  | locals type first more => rw [Item.node, Item.wrapped]; rfl
  | localClass c => rw [Item.node, Item.wrapped]; rfl

theorem blockStatements_eq (items : List Item) :
    blockStatements (itemNodes items) = items.map Item.wrapped := by
  rw [itemNodes_eq, blockStatements, List.map_map]
  exact List.map_congr_left fun i _ => wrapped_node i

theorem takes_parExpression (s : Source) :
    Takes (Grammar.parExpression .ruby : Reader n Expr) (parExpression s.text :: rest) s.expr
      rest := by
  refine takes_inside rfl fun _ => ?_
  refine Takes.bind (takes_token rfl) ?_
  refine (takes_expression s).bind ?_
  exact Takes.bind (takes_token rfl) takes_pure

theorem takes_localVariables (t : String) {vars : List Variable} (hne : vars ≠ []) :
    Takes (blockStatementIn .ruby (localVariables t (vars.map Variable.phrase)))
      (localVariables t (vars.map Variable.phrase)).children
      [.variables (vars.map (Variable.declarator (typeRef t)))] [] := by
  rw [blockStatementIn]
  refine takes_takeComments.bind ?_
  refine takes_if_not rfl ?_
  refine takes_if_next rfl ?_
  refine Takes.bind (takes_inside rfl fun _ => ?_) takes_pure
  refine Takes.bind (takes_inside rfl fun _ => ?_) (Takes.bind (takes_token rfl) takes_pure)
  refine takes_noVariableModifiers.bind ?_
  exact (takes_type t).bind (takes_declarators (typeRef t) hne)

theorem takes_localType (c : LocalClass) :
    Takes (blockStatementIn .ruby (localType c.decl)) (localType c.decl).children
      [.type [] c.type] [] := by
  obtain ⟨hkind, hdecl⟩ := takes_of_readTree c.reads
  rw [blockStatementIn]
  refine takes_takeComments.bind ?_
  refine takes_if_next (Node.nextHas_of_isAmong hkind []) ?_
  exact Takes.bind (takes_inside hkind fun _ => hdecl.bind takes_pure) takes_pure

theorem takes_switchLabels (labels : List (Option Source))
    (hrest : Node.nextHas ["switchLabel"] rest = false) :
    Takes (Grammar.switchLabels .ruby : Reader n (List (Option Expr)))
      ((labels.map (·.map Source.text)).map switchLabel ++ rest) (labels.map (·.map Source.expr))
      rest := by
  rw [List.map_map]
  refine takes_many (fun label _ => ?_) (fun label _ _ => ?_) hrest
  · cases label <;> rfl
  · cases label with
    | none => exact takes_if_token rfl (takes_pure.bind (Takes.bind (takes_token rfl) takes_pure))
    | some s =>
      refine takes_if_no_token rfl ?_
      refine Takes.bind (takes_token rfl) ?_
      refine (takes_expression s).bind ?_
      refine takes_pure.bind ?_
      exact Takes.bind (takes_token rfl) takes_pure

/-- The tree is a block statement that is read as certain statements. -/
def ReadsAs (c : Node) (statements : List Statement) : Prop :=
  c.isAmong ["blockStatement"] = true ∧ Takes (blockStatementIn .ruby c) c.children statements []

section

variable {γ : Type} {items : List γ} {tree : γ → Node} {value : γ → List Statement}

theorem takes_blockStatements (h : ∀ x ∈ items, ReadsAs (tree x) (value x))
    (hrest : Node.nextHas ["blockStatement"] rest = false) :
    Takes (many "blockStatement" fun c _ => blockStatementIn .ruby c :
      Reader n (List (List Statement))) (items.map tree ++ rest) (items.map value) rest :=
  takes_many (fun x hx => (h x hx).1) (fun x hx _ => (h x hx).2) hrest

theorem takes_blockRest (h : ∀ x ∈ items, ReadsAs (tree x) (value x)) :
    Takes (blockRest fun c _ => blockStatementIn .ruby c : Reader n (List Statement))
      (items.map tree ++ [token "\x7d"]) (items.flatMap value) [] := by
  refine (takes_blockStatements h rfl).bind ?_
  refine Takes.bind (takes_token rfl) ?_
  refine takes_takeComments.bind ?_
  exact Takes.result takes_pure (by simp [List.flatMap_def])

theorem takes_blockIn {body : List Node} (h : ∀ x ∈ items, ReadsAs (tree x) (value x))
    (hbody : blockStatements body = items.map tree) :
    Takes (blockIn .ruby (block body)) (block body).children (items.flatMap value) [] := by
  rw [blockIn]
  show Takes _ (token "\x7b" :: (blockStatements body ++ [token "\x7d"])) _ _
  rw [hbody]
  exact Takes.bind (takes_token rfl) (takes_blockRest h)

end

theorem takes_statement {s : Sentence}
    (hs : Takes (statementIn .ruby s.node) s.node.children (some s.read) []) :
    Takes (inside ["statement"] fun c _ => statementIn .ruby c : Reader n (Option Statement))
      (s.node :: rest) (some s.read) rest :=
  takes_inside (Node.isAmong_of_kind (kind_sentence s) (by decide)) fun _ => hs

/-- A statement that another one controls. -/
theorem takes_branch {s : Sentence}
    (hs : Takes (statementIn .ruby s.node) s.node.children (some s.read) []) :
    Takes (do
        let s ← inside ["statement"] fun c _ => statementIn .ruby c
        return branchOf s : Reader n (List Statement))
      (s.node :: rest) (branchOf s.read) rest :=
  (takes_statement hs).bind takes_pure

theorem nextHas_wrapped (items : List Item) :
    Node.nextHas ["switchLabel"] (items.map Item.wrapped) = false := by
  cases items with
  | nil => rfl
  | cons i more => exact Node.nextHas_of_kind (kind_wrapped i) (by decide) _

-- The induction is on the statement; every case runs the reader of its production child by child.
mutual

theorem takes_sentence : ∀ s : Sentence,
    Takes (statementIn .ruby s.node) s.node.children (some s.read) []
  | .expr source => by
    rw [Sentence.node, Sentence.read, statementIn]
    refine Takes.bind (takes_peekKind "statementExpression" rfl) ?_
    refine Takes.bind (takes_inside rfl fun _ => takes_expression source) ?_
    exact Takes.bind (takes_token rfl) takes_pure
  | .block body => by
    rw [Sentence.node, Sentence.read, statementIn, readItems_eq]
    exact Takes.bind (takes_peekKind "block" rfl) (Takes.bind (takes_inside rfl fun _ =>
      takes_blockIn (reads_items body) (blockStatements_eq body)) takes_pure)
  | .ifThen condition thenBranch elseBranch => by
    rw [Sentence.node, Sentence.read, statementIn]
    refine Takes.bind (takes_peekKind "if" rfl) ?_
    refine Takes.bind (takes_token rfl) ?_
    refine (takes_parExpression condition).bind ?_
    refine (takes_branch (takes_sentence thenBranch)).bind ?_
    cases elseBranch with
    | none => exact takes_if_no_token rfl (takes_pure.bind takes_pure)
    | some s =>
      exact takes_if_token rfl (((takes_branch (takes_sentence s)).map some).bind takes_pure)
  | .loop condition body => by
    rw [Sentence.node, Sentence.read, statementIn]
    refine Takes.bind (takes_peekKind "while" rfl) ?_
    refine Takes.bind (takes_token rfl) ?_
    refine (takes_parExpression condition).bind ?_
    exact (takes_branch (takes_sentence body)).bind takes_pure
  | .switch value groups => by
    rw [Sentence.node, Sentence.read, statementIn]
    refine Takes.bind (takes_peekKind "switch" rfl) ?_
    refine Takes.bind (takes_token rfl) ?_
    refine (takes_parExpression value).bind ?_
    refine Takes.bind (takes_token rfl) ?_
    refine Takes.bind (takes_optional rfl fun _ => ?_) (Takes.bind (takes_token rfl) takes_pure)
    show Takes _ (List.map _ (groupNodes groups)) (readGroups groups) _
    rw [groupNodes_eq, readGroups_eq]
    exact takes_many_all (fun g _ => by cases g; rfl) (fun g hg _ => takes_groups groups g hg)
  | .return value => by
    rw [Sentence.node, Sentence.read, statementIn]
    refine Takes.bind (takes_peekKind "return" rfl) (Takes.bind (takes_token rfl) ?_)
    cases value with
    | none => exact takes_if_not rfl (takes_pure.bind (Takes.bind (takes_token rfl) takes_pure))
    | some s =>
      refine takes_if_next rfl ?_
      refine ((takes_expression s).map some).bind ?_
      exact Takes.bind (takes_token rfl) takes_pure
  | .throw value => by
    rw [Sentence.node, Sentence.read, statementIn]
    refine Takes.bind (takes_peekKind "throw" rfl) ?_
    refine Takes.bind (takes_token rfl) ?_
    refine (takes_expression value).bind ?_
    exact Takes.bind (takes_token rfl) takes_pure
  | .leave label => by
    rw [Sentence.node, Sentence.read, statementIn]
    refine Takes.bind (takes_peekKind "break" rfl) (Takes.bind (takes_token rfl) ?_)
    cases label with
    | none => exact takes_if_not rfl (takes_pure.bind (Takes.bind (takes_token rfl) takes_pure))
    | some l =>
      refine takes_if_next rfl ?_
      refine ((takes_identifier l).map some).bind ?_
      exact Takes.bind (takes_token rfl) takes_pure
  | .labeled label body => by
    rw [Sentence.node, Sentence.read, statementIn]
    refine Takes.bind (takes_peekKind "Identifier" rfl) ?_
    refine (takes_identifier label).bind ?_
    refine Takes.bind (takes_token rfl) ?_
    exact (takes_branch (takes_sentence body)).bind takes_pure

theorem reads_item : ∀ i : Item, ReadsAs i.wrapped [i.read]
  | .sentence s => by
    refine ⟨rfl, ?_⟩
    rw [Item.read, Item.wrapped, blockStatementIn]
    have hkind := kind_sentence s
    refine takes_takeComments.bind ?_
    refine takes_if_not (Node.nextHas_of_kind hkind (by decide) []) ?_
    refine takes_if_not (Node.nextHas_of_kind hkind (by decide) []) ?_
    refine Takes.bind (takes_statement (takes_sentence s)) ?_
    exact takes_pure.bind takes_pure
  | .locals type first more => by
    refine ⟨rfl, ?_⟩
    rw [Item.read, Item.wrapped]
    exact takes_localVariables type (List.cons_ne_nil first more)
  | .localClass c => by
    refine ⟨rfl, ?_⟩
    rw [Item.read, Item.wrapped]
    exact takes_localType c

theorem reads_items : ∀ items : List Item, ∀ i ∈ items, ReadsAs i.wrapped [i.read]
  | [], i, h => absurd h List.not_mem_nil
  | i :: more, j, h => by
    rcases List.mem_cons.mp h with heq | h
    · rw [heq]
      exact reads_item i
    · exact reads_items more j h

theorem takes_groups : ∀ groups : List Group, ∀ g ∈ groups,
    Takes (do
        let labels ← Grammar.switchLabels .ruby
        let body ← many "blockStatement" fun s _ => blockStatementIn .ruby s
        return ⟨labels, body.flatten⟩ : Reader g.node (SwitchGroup Statement))
      g.node.children g.read []
  | [], g, h => absurd h List.not_mem_nil
  | ⟨labels, body⟩ :: more, g, h => by
    rcases List.mem_cons.mp h with rfl | h
    · rw [Group.node, Group.read, blockStatements_eq, readItems_eq]
      refine (takes_switchLabels labels (nextHas_wrapped body)).bind ?_
      rw [← List.append_nil (body.map Item.wrapped)]
      refine (takes_blockStatements (reads_items body) rfl).bind ?_
      exact Takes.result takes_pure (by rw [List.flatMap_def])
    · exact takes_groups more g h

end

/-! ## Meaning -/

/-- The body behind the declaration of a type: the type has a module, is listed, and is known by its
name. -/
def declared (s : BodyState) (c : LocalClass) : BodyState :=
  let g := (declareType .ruby s.cx [] s.graph c.type).2
  ⟨g, s.cx.declareLocal c.type.name (g.path s.graph.size), s.classes ++ [s.graph.size]⟩

/-- The body behind several declarations. -/
def declaredAll (s : BodyState) (classes : List LocalClass) : BodyState :=
  classes.foldl declared s

mutual

/-- The types declared in a statement, in source order. -/
def Sentence.classes : Sentence → List LocalClass
  | .block body => itemClasses body
  | .ifThen _ thenBranch elseBranch => thenBranch.classes ++ elseClasses elseBranch
  | .loop _ body | .labeled _ body => body.classes
  | .switch _ groups => groupClasses groups
  | .expr _ | .return _ | .throw _ | .leave _ => []

/-- The types declared in an else branch. -/
def elseClasses : Option Sentence → List LocalClass
  | none => []
  | some s => s.classes

/-- The types declared by something in a body. -/
def Item.classes : Item → List LocalClass
  | .sentence s => s.classes
  | .locals .. => []
  | .localClass c => [c]

/-- The types declared in a body. -/
def itemClasses : List Item → List LocalClass
  | [] => []
  | i :: more => i.classes ++ itemClasses more

/-- The types declared in the groups of a switch. -/
def groupClasses : List Group → List LocalClass
  | [] => []
  | ⟨_, body⟩ :: more => itemClasses body ++ groupClasses more

end

/-- The text of an expression, with the types that the body knows. -/
def Source.textIn (s : BodyState) (e : Source) : String :=
  Ruby.exprText s.cx.localType? e.expr

/-- The assignment that a variable begins with: its initial value, or the default of its type. -/
def Variable.assignment (s : BodyState) (t : TypeRef) (v : Variable) : Flow.Stmt :=
  .other (v.name ++ " = " ++ (v.init.map (·.textIn s)).getD (s.cx.resolve t).defaultValue)

/-- A label of a switch group. -/
def labelIn (s : BodyState) : Option Source → Flow.CaseLabel
  | some e => .value (e.textIn s)
  | none => .otherwise

/-- A statement that another one controls: a block is its statements. -/
def flattened : Flow.Stmt → List Flow.Stmt
  | .block body => body
  | st => [st]

mutual

/-- The statement that a phrase stands for, in a body. -/
def Sentence.stmt (s : BodyState) : Sentence → Flow.Stmt
  | .expr source => .other (source.textIn s)
  | .block body => .block (itemStmts s body)
  | .ifThen condition thenBranch elseBranch =>
    .ifThen (condition.textIn s) (flattened (thenBranch.stmt s))
      (elseStmts (declaredAll s thenBranch.classes) elseBranch)
  | .loop condition body => .loop (condition.textIn s) (flattened (body.stmt s))
  | .switch value groups => .case (value.textIn s) (groupBranches s groups)
  | .return value => .return (value.map (·.textIn s))
  | .throw value => .raise (value.textIn s)
  | .leave label => .leave label
  | .labeled label body => .labeled label (flattened (body.stmt s))

/-- The statements of an else branch. -/
def elseStmts (s : BodyState) : Option Sentence → Option (List Flow.Stmt)
  | none => none
  | some e => some (flattened (e.stmt s))

/-- The statements that something in a body stands for. -/
def Item.stmts (s : BodyState) : Item → List Flow.Stmt
  | .sentence x => [x.stmt s]
  | .locals type first more => (first :: more).map (Variable.assignment s (typeRef type))
  | .localClass _ => []

/-- The statements of a body. -/
def itemStmts (s : BodyState) : List Item → List Flow.Stmt
  | [] => []
  | i :: more => i.stmts s ++ itemStmts (declaredAll s i.classes) more

/-- The branches of a switch. -/
def groupBranches (s : BodyState) : List Group → List (Flow.Branch Flow.Stmt)
  | [] => []
  | ⟨labels, body⟩ :: more =>
    ⟨labels.map (labelIn s), false, itemStmts s body⟩ ::
      groupBranches (declaredAll s (itemClasses body)) more

end

theorem declaredAll_append (s : BodyState) (classes more : List LocalClass) :
    declaredAll s (classes ++ more) = declaredAll (declaredAll s classes) more :=
  List.foldl_append

theorem lower_type (s : BodyState) (c : LocalClass) :
    lower .ruby s (.type [] c.type) = ([], declared s c) := by
  have hname := name_declareType .ruby s.cx [] s.graph c.type
  rw [lower]
  simp only [declareType_fst]
  rw [hname]
  rfl

theorem localVariable_eq (s : BodyState) (t : TypeRef) (v : Variable) :
    localVariable .ruby s.cx (v.declarator t) = v.assignment s t := by
  obtain ⟨ident, init⟩ := v
  cases init <;> rfl

theorem lowerAll_singleton {s s' : BodyState} {st : Statement} {stmts : List Flow.Stmt}
    (h : lower .ruby s st = (stmts, s')) : lowerAll .ruby s [st] = (stmts, s') := by
  rw [lowerAll, h]
  simp only [lowerAll, List.append_nil]

/-- What a statement stands for where another one controls it. -/
theorem lowerAll_branchOf {s s' : BodyState} {x : Sentence}
    (h : lower .ruby s x.read = ([x.stmt s], s')) :
    lowerAll .ruby s (branchOf x.read) = (flattened (x.stmt s), s') := by
  cases x with
  | block body =>
    rw [Sentence.read, Sentence.stmt, lower] at h
    rw [Sentence.read, Sentence.stmt]
    show lowerAll .ruby s (readItems body) = (itemStmts s body, s')
    simp only [Prod.mk.injEq, List.cons.injEq, Flow.Stmt.block.injEq, and_true] at h
    exact Prod.ext h.1 h.2
  | _ =>
    rw [Sentence.read, Sentence.stmt] at h ⊢
    exact lowerAll_singleton h

mutual

theorem lower_sentence (s : BodyState) : ∀ x : Sentence,
    lower .ruby s x.read = ([x.stmt s], declaredAll s x.classes)
  | .expr source => by
    rw [Sentence.read, lower, Sentence.stmt, Sentence.classes]
    rfl
  | .block body => by
    rw [Sentence.read, lower, Sentence.stmt, Sentence.classes, lower_items s body]
  | .ifThen condition thenBranch elseBranch => by
    rw [Sentence.read, lower, Sentence.stmt, Sentence.classes,
      lowerAll_branchOf (lower_sentence s thenBranch), declaredAll_append]
    simp only
    rw [lower_else _ elseBranch]
    rfl
  | .loop condition body => by
    rw [Sentence.read, lower, Sentence.stmt, Sentence.classes,
      lowerAll_branchOf (lower_sentence s body)]
    rfl
  | .switch value groups => by
    rw [Sentence.read, lower, Sentence.stmt, Sentence.classes, lower_groups s groups]
    rfl
  | .return value => by
    rw [Sentence.read, lower, Sentence.stmt, Sentence.classes, Option.map_map]
    rfl
  | .throw value => by
    rw [Sentence.read, lower, Sentence.stmt, Sentence.classes]
    rfl
  | .leave label => by
    rw [Sentence.read, lower, Sentence.stmt, Sentence.classes]
    rfl
  | .labeled label body => by
    rw [Sentence.read, lower, Sentence.stmt, Sentence.classes,
      lowerAll_branchOf (lower_sentence s body)]

theorem lower_else (s : BodyState) : ∀ branch : Option Sentence,
    lowerElse .ruby s (readElse branch) = (elseStmts s branch, declaredAll s (elseClasses branch))
  | none => by
    rw [readElse, lowerElse, elseStmts, elseClasses]
    rfl
  | some x => by
    rw [readElse, lowerElse, elseStmts, elseClasses, lowerAll_branchOf (lower_sentence s x)]

theorem lower_item (s : BodyState) : ∀ i : Item,
    lower .ruby s i.read = (i.stmts s, declaredAll s i.classes)
  | .sentence x => by
    rw [Item.read, Item.stmts, Item.classes]
    exact lower_sentence s x
  | .locals type first more => by
    rw [Item.read, Item.stmts, Item.classes, lower, List.map_map]
    refine Prod.ext (List.map_congr_left fun v _ => ?_) rfl
    exact localVariable_eq s (typeRef type) v
  | .localClass c => by
    rw [Item.read, Item.stmts, Item.classes]
    exact lower_type s c

theorem lower_items (s : BodyState) : ∀ items : List Item,
    lowerAll .ruby s (readItems items) = (itemStmts s items, declaredAll s (itemClasses items))
  | [] => by
    rw [readItems, lowerAll, itemStmts, itemClasses]
    rfl
  | i :: more => by
    rw [readItems, lowerAll, itemStmts, itemClasses, lower_item s i, declaredAll_append]
    simp only
    rw [lower_items _ more]

theorem lower_groups (s : BodyState) : ∀ groups : List Group,
    lowerGroups .ruby s (readGroups groups) =
      (groupBranches s groups, declaredAll s (groupClasses groups))
  | [] => by
    rw [readGroups, lowerGroups, groupBranches, groupClasses]
    rfl
  | ⟨labels, body⟩ :: more => by
    rw [readGroups, lowerGroups, groupBranches, groupClasses, lower_items s body, declaredAll_append]
    simp only
    rw [lower_groups _ more, List.map_map]
    refine Prod.ext (congrArg (· :: _) ?_) rfl
    congr 1
    refine List.map_congr_left fun label _ => ?_
    cases label <;> rfl

end

/-! ## The inverse -/

/-- What the declaration of a type in a body does: the type has a new module under its own name,
which the body lists and knows. The modules that were there get references to the constants of an
enum, and nothing else. -/
structure Declares (s : BodyState) (decl : TypeDecl) (s' : BodyState) : Prop where
  named : (s'.graph.get? s.graph.size).map Module.name = some decl.name
  listed : s'.classes = s.classes ++ [s.graph.size]
  known : s'.cx = s.cx.declareLocal decl.name (s'.graph.path s.graph.size)
  others : Grows (additionsTo s.cx.module fun k =>
    (typeReferences (s.graph.path k) decl).map .constant) s.graph s'.graph

theorem declares_declared (s : BodyState) (c : LocalClass) : Declares s c.type (declared s c) :=
  ⟨name_declareType .ruby s.cx [] s.graph c.type, rfl, rfl,
    grows_declareType .ruby s.cx [] s.graph c.type⟩

/-- **Phrases are read back as what they stand for.** The block statements of a body are taken, all
of them and nothing else, and mean the statements of the body in order. The types in the body are
declared in order, each as one new module. -/
theorem lowerAll_blockStatements (items : List Item) {n : Node} (p : Place n) {rest : List Node}
    (hp : p.left = blockStatements (itemNodes items) ++ rest) (hc : p.comments = [])
    (hrest : Node.nextHas ["blockStatement"] rest = false) :
    ∃ bodies q, many "blockStatement" (fun c _ => blockStatementIn .ruby c) p = .ok (bodies, q) ∧
      q.left = rest ∧ q.comments = [] ∧
      ∀ s, lowerAll .ruby s bodies.flatten =
          (itemStmts s items, (itemClasses items).foldl declared s) ∧
        ∀ c ∈ itemClasses items, Declares s c.type (declared s c) := by
  have htakes := takes_blockStatements (n := n) (reads_items items) hrest
  rw [← blockStatements_eq] at htakes
  obtain ⟨q, hq, hleft, hcomments⟩ := htakes p hp hc
  refine ⟨_, q, hq, hleft, hcomments, fun s => ⟨?_, fun c _ => declares_declared s c⟩⟩
  rw [← List.flatMap_def, ← readItems_eq]
  exact lower_items s items

/-- A text that is a literal. -/
def two : Source := ⟨"2", .whole ["2"] (by decide +kernel), by decide +kernel⟩

/-- A text that is a comparison. -/
def positive : Source :=
  ⟨"n > 0", .whole ["n", ">", "0"] (by decide +kernel), by decide +kernel⟩

/-- Variables with and without a value, branches that are a block and that are not, a block of its
own, and a type. -/
def sample (c : LocalClass) : List Item :=
  [.locals "int" ⟨"n", some two⟩ [⟨"m", none⟩],
   .sentence (.ifThen positive (.block [.sentence (.return none)])
     (some (.switch two [⟨[some two, none], [.sentence (.leave none)]⟩]))),
   .sentence (.block [.sentence (.expr positive)]),
   .localClass c]

theorem itemStmts_sample (c : LocalClass) : itemStmts ⟨{}, {}, []⟩ (sample c) =
    [.other "n = 2", .other "m = 0",
     .ifThen "n > 0" [.return none]
      (some [.case "2" [⟨[.value "2", .otherwise], false, [.leave none]⟩]]),
     .block [.other "n > 0"]] := by
  have htwo : two.textIn ⟨{}, {}, []⟩ = "2" := by decide +kernel
  have hpositive : positive.textIn ⟨{}, {}, []⟩ = "n > 0" := by decide +kernel
  have hint : (Context.resolve {} (typeRef "int")).defaultValue = "0" := by decide +kernel
  simp [sample, itemStmts, Item.stmts, Sentence.stmt, elseStmts, groupBranches, flattened,
    Variable.assignment, labelIn, Item.classes, Sentence.classes, itemClasses, elseClasses,
    groupClasses, declaredAll, htwo, hpositive, hint]

theorem exists_localClass_helper : ∃ c : LocalClass,
    c.decl = typeDeclaration [] (classDeclaration "Helper" [] none [] []) ∧
      c.type.name = "Helper" := by
  have hok : (readTree (typeDeclaration [] (classDeclaration "Helper" [] none [] []))
      (inside ["classOrInterfaceDeclaration"] fun c _ => declarationIn .ruby c)).toOption.map
      (fun r => (r.1.1, r.1.2.name, r.2)) = some ([], "Helper", []) := by
    decide +kernel
  cases h : readTree (typeDeclaration [] (classDeclaration "Helper" [] none [] []))
      (inside ["classOrInterfaceDeclaration"] fun c _ => declarationIn .ruby c) with
  | error e => rw [h] at hok; cases hok
  | ok r =>
    obtain ⟨⟨comments, type⟩, texts⟩ := r
    rw [h] at hok
    simp only [Except.toOption, Option.map_some, Option.some.injEq, Prod.mk.injEq] at hok
    obtain ⟨rfl, hname, rfl⟩ := hok
    exact ⟨⟨_, type, h⟩, rfl, hname⟩

theorem lowerAll_blockStatements_sample : ∃ c : LocalClass, c.type.name = "Helper" ∧
    ∃ p : Place (block (itemNodes (sample c))),
      p.left = blockStatements (itemNodes (sample c)) ++ [token "\x7d"] ∧ p.comments = [] ∧
      Node.nextHas ["blockStatement"] [token "\x7d"] = false ∧
      ∃ bodies q, many "blockStatement" (fun c _ => blockStatementIn .ruby c) p = .ok (bodies, q) ∧
        q.left = [token "\x7d"] ∧ q.comments = [] ∧
        lowerAll .ruby ⟨{}, {}, []⟩ bodies.flatten =
          ([.other "n = 2", .other "m = 0",
            .ifThen "n > 0" [.return none]
              (some [.case "2" [⟨[.value "2", .otherwise], false, [.leave none]⟩]]),
            .block [.other "n > 0"]], declared ⟨{}, {}, []⟩ c) ∧
        Declares ⟨{}, {}, []⟩ c.type (declared ⟨{}, {}, []⟩ c) := by
  obtain ⟨c, -, hname⟩ := exists_localClass_helper
  have hclasses : itemClasses (sample c) = [c] := by
    simp [sample, itemClasses, Item.classes, Sentence.classes, elseClasses, groupClasses]
  let p : Place (block (itemNodes (sample c))) :=
    ⟨blockStatements (itemNodes (sample c)) ++ [token "\x7d"], List.suffix_cons _ _, []⟩
  obtain ⟨bodies, q, hq, hleft, hcomments, hlower⟩ :=
    lowerAll_blockStatements (sample c) p rfl rfl rfl
  obtain ⟨hstmts, hdeclares⟩ := hlower ⟨{}, {}, []⟩
  rw [itemStmts_sample, hclasses] at hstmts
  refine ⟨c, hname, p, rfl, rfl, rfl, bodies, q, hq, hleft, hcomments, hstmts, hdeclares c ?_⟩
  rw [hclasses]
  exact List.mem_singleton_self c

end Rubify.Phrase
