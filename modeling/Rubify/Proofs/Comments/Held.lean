import Rubify.Program.Graph
import Mathlib.Data.List.Basic

/-!
# The comments that are held

Where comments live once a tree has been read: in the declarations and statements as read
(`Syntax`), and in the modules of the graph that is made of them (`Program`). Each `commentTexts` lists
all of them, at any depth. Comments in front of fields or constants belong to the first of these, so a
declaration of none holds none.
-/

namespace Rubify.Flow

mutual

/-- The comments of a statement. -/
def Stmt.commentTexts : Stmt → List String
  | .comment text => [text]
  | .block body | .loop _ body | .labeled _ body => commentTexts body
  | .ifThen _ thenBranch elseBranch => commentTexts thenBranch ++ elseCommentTexts elseBranch
  | .case _ branches => branchCommentTexts branches
  | .other _ | .leave _ | .return _ | .raise _ => []

/-- The comments of a body. -/
def commentTexts : List Stmt → List String
  | [] => []
  | s :: rest => s.commentTexts ++ commentTexts rest

/-- The comments of an `else` branch. -/
def elseCommentTexts : Option (List Stmt) → List String
  | none => []
  | some body => commentTexts body

/-- The comments of the groups of a switch. -/
def branchCommentTexts : List (Branch Stmt) → List String
  | [] => []
  | ⟨_, _, body⟩ :: rest => commentTexts body ++ branchCommentTexts rest

end

theorem commentTexts_append (xs ys : List Stmt) :
    commentTexts (xs ++ ys) = commentTexts xs ++ commentTexts ys := by
  induction xs with
  | nil => rfl
  | cons s xs ih => rw [List.cons_append, commentTexts, commentTexts, ih, List.append_assoc]

end Rubify.Flow

namespace Rubify.Program

/-- The comments of a body whose statements are there. -/
def Body.commentTexts (b : Body) : List String :=
  (b.stmts.map Flow.commentTexts).getD []

/-- The comments of a method's body. -/
def MethodBody.commentTexts : MethodBody → List String
  | .pending body => body.commentTexts
  | .abstract | .native | .synthesized _ => []

/-- The comments of a method and its body. -/
def Method.commentTexts (m : Method) : List String :=
  m.comments ++ m.body.commentTexts

/-- The comments of a constructor and its body. -/
def Constructor.commentTexts (c : Constructor) : List String :=
  c.comments ++ c.body.commentTexts

/-- The comments of a static block and its body. -/
def StaticBlock.commentTexts (b : StaticBlock) : List String :=
  b.comments ++ b.body.commentTexts

/-- The comments of a module: its own, and those of everything in it. -/
def Module.commentTexts (m : Module) : List String :=
  m.comments ++ m.bodyComments ++ m.fields.flatMap Field.comments ++
    m.staticFields.flatMap Field.comments ++ m.constants.flatMap Constant.comments ++
    m.constructors.flatMap Constructor.commentTexts ++ m.methods.flatMap Method.commentTexts ++
    m.staticBlocks.flatMap StaticBlock.commentTexts

/-- The comments of a graph: the loose ones, and those of its modules. -/
def Graph.commentTexts (g : Graph) : List String :=
  g.comments ++ g.modules.toList.flatMap Module.commentTexts

end Rubify.Program

namespace Rubify.Syntax

/-- The comments in front of declarators, which go to the first. -/
def declaratorTexts (comments : List String) (declarators : List Declarator) : List String :=
  if declarators.isEmpty then [] else comments

mutual

/-- The comments of a statement. -/
def Statement.commentTexts : Statement → List String
  | .comment text => [text]
  | .type comments decl => comments ++ decl.commentTexts
  | .block body | .loop _ body | .labeled _ body => statementTexts body
  | .ifThen _ thenBranch elseBranch => statementTexts thenBranch ++ elseTexts elseBranch
  | .switch _ groups => groupTexts groups
  | .variables _ | .expr _ | .leave _ | .return _ | .throw _ | .invoke _ => []

/-- The comments of statements. -/
def statementTexts : List Statement → List String
  | [] => []
  | s :: rest => s.commentTexts ++ statementTexts rest

/-- The comments of an `else` branch. -/
def elseTexts : Option (List Statement) → List String
  | none => []
  | some body => statementTexts body

/-- The comments of the groups of a switch. -/
def groupTexts : List (SwitchGroup Statement) → List String
  | [] => []
  | ⟨_, body⟩ :: rest => statementTexts body ++ groupTexts rest

/-- The comments of a method's body. -/
def methodBodyTexts : MethodBody Statement → List String
  | .block body => statementTexts body
  | .abstract | .native => []

/-- The comments inside a type. -/
def TypeDecl.commentTexts : TypeDecl → List String
  | .classType _ _ _ _ _ body => memberBodyTexts body
  | .enumType _ _ constants body => constantTexts constants ++ memberBodyTexts body
  | .interfaceType _ _ _ ⟨opening, members, closing⟩ =>
    opening ++ interfaceMemberTexts members ++ closing
  | .annotationType _ comments => comments

/-- The comments of the body of a class or an enum. -/
def memberBodyTexts : TypeBody Member → List String
  | ⟨opening, members, closing⟩ => opening ++ memberTexts members ++ closing

/-- The comments of a member. -/
def Member.commentTexts : Member → List String
  | .empty comments => comments
  | .initializer comments body => comments ++ statementTexts body
  | .fields comments _ _ declarators => declaratorTexts comments declarators
  | .method signature _ _ body => signature.comments ++ methodBodyTexts body
  | .constructor comments _ _ _ body => comments ++ statementTexts body
  | .type comments decl => comments ++ decl.commentTexts

/-- The comments of members. -/
def memberTexts : List Member → List String
  | [] => []
  | m :: rest => m.commentTexts ++ memberTexts rest

/-- The comments of a member of an interface. -/
def InterfaceMember.commentTexts : InterfaceMember → List String
  | .empty comments => comments
  | .constants comments declarators => declaratorTexts comments declarators
  | .method signature => signature.comments
  | .type comments decl => comments ++ decl.commentTexts

/-- The comments of members of an interface. -/
def interfaceMemberTexts : List InterfaceMember → List String
  | [] => []
  | m :: rest => m.commentTexts ++ interfaceMemberTexts rest

/-- The comments of the constants of an enum. -/
def constantTexts : List (EnumConstant Member) → List String
  | [] => []
  | ⟨comments, _, _, body⟩ :: rest => comments ++ constantBodyTexts body ++ constantTexts rest

/-- The comments of the body of an enum constant. -/
def constantBodyTexts : Option (TypeBody Member) → List String
  | none => []
  | some body => memberBodyTexts body

end

/-- The comments of a constant of an enum. -/
def EnumConstant.commentTexts (c : EnumConstant Member) : List String :=
  c.comments ++ constantBodyTexts c.body

/-- The comments of a group of a switch. -/
def SwitchGroup.commentTexts (g : SwitchGroup Statement) : List String :=
  statementTexts g.body

/-- The comments of a declared type, with those in front of it. -/
def declarationTexts (declaration : List String × TypeDecl) : List String :=
  declaration.1 ++ declaration.2.commentTexts

/-- The comments of a compilation unit up to its last type. -/
def CompilationUnit.leadingTexts (u : CompilationUnit) : List String :=
  u.comments ++ u.types.flatMap declarationTexts

/-- The comments of a compilation unit. -/
def CompilationUnit.commentTexts (u : CompilationUnit) : List String :=
  u.leadingTexts ++ u.trailing

theorem statementTexts_eq (body : List Statement) :
    statementTexts body = body.flatMap Statement.commentTexts := by
  induction body with
  | nil => rfl
  | cons s rest ih => rw [statementTexts, List.flatMap_cons, ih]

theorem statementTexts_append (xs ys : List Statement) :
    statementTexts (xs ++ ys) = statementTexts xs ++ statementTexts ys := by
  simp only [statementTexts_eq, List.flatMap_append]

theorem statementTexts_flatten (bodies : List (List Statement)) :
    statementTexts bodies.flatten = bodies.flatMap statementTexts := by
  induction bodies with
  | nil => rfl
  | cons body rest ih => rw [List.flatten_cons, statementTexts_append, ih, List.flatMap_cons]

theorem statementTexts_comments (texts : List String) :
    statementTexts (texts.map .comment) = texts := by
  induction texts with
  | nil => rfl
  | cons text rest ih => rw [List.map_cons, statementTexts, ih]; rfl

theorem groupTexts_eq (groups : List (SwitchGroup Statement)) :
    groupTexts groups = groups.flatMap SwitchGroup.commentTexts := by
  induction groups with
  | nil => rfl
  | cons g rest ih => rw [groupTexts, List.flatMap_cons, ih]; rfl

theorem memberTexts_eq (members : List Member) :
    memberTexts members = members.flatMap Member.commentTexts := by
  induction members with
  | nil => rfl
  | cons m rest ih => rw [memberTexts, List.flatMap_cons, ih]

theorem interfaceMemberTexts_eq (members : List InterfaceMember) :
    interfaceMemberTexts members = members.flatMap InterfaceMember.commentTexts := by
  induction members with
  | nil => rfl
  | cons m rest ih => rw [interfaceMemberTexts, List.flatMap_cons, ih]

theorem constantTexts_eq (constants : List (EnumConstant Member)) :
    constantTexts constants = constants.flatMap EnumConstant.commentTexts := by
  induction constants with
  | nil => rfl
  | cons c rest ih => rw [constantTexts, List.flatMap_cons, ih]; rfl

end Rubify.Syntax
