import Rubify.Program.Context
import Rubify.Syntax.Decl

/-!
# What a unit declares

Two readings of declarations as read, both by recursion over types, members and statements.

`declared` lists what modules are made for, at any depth and in the order of the text: one entry for each
type, which says whether it stands in a body, and one for each body of an enum constant. A type comes
before everything inside it. `origins` keeps of this list what the shape of a module depends on.

`Tidy` says that in every parameter list at most the last parameter is variadic, and that the type
of such a one is an array.
-/

namespace Rubify.Program

/-- What a module is made for. Annotation types count as interfaces. -/
inductive Origin
  | type (decl : DeclKind) (inBody : Bool)
  /-- The body of an enum constant. -/
  | constantBody
  deriving DecidableEq, Repr

/-- Whether the module is made for an interface. -/
def Origin.isInterface : Origin → Bool
  | .type .interfaceType _ => true
  | _ => false

/-- Whether the module is made for an enum. -/
def Origin.isEnum : Origin → Bool
  | .type .enumType _ => true
  | _ => false

end Rubify.Program

namespace Rubify.Syntax

open Program (DeclKind Origin)

/-- Only the last parameter can be variadic, and its type has at least one dimension. -/
structure VariadicLast (params : List Parameter) : Prop where
  last : ∀ p ∈ params.dropLast, p.variadic = false
  array : ∀ p ∈ params, p.variadic = true → 0 < p.type.dims

/-! ## Declarations in order -/

/-- A declaration that a module is made for. -/
inductive Declared
  /-- A type, and whether it stands in a body. -/
  | type (decl : TypeDecl) (inBody : Bool)
  /-- The body of the constant `name` of an enum. -/
  | constantBody (name : String) (body : TypeBody Member)

mutual

/-- A type and everything declared in it. -/
def TypeDecl.declared (inBody : Bool) : TypeDecl → List Declared
  | .classType name static generics superclass interfaces ⟨opening, members, closing⟩ =>
    .type (.classType name static generics superclass interfaces ⟨opening, members, closing⟩) inBody ::
      membersDeclared members
  | .enumType name interfaces constants ⟨opening, members, closing⟩ =>
    .type (.enumType name interfaces constants ⟨opening, members, closing⟩) inBody ::
      (constantsDeclared constants ++ membersDeclared members)
  | .interfaceType name generics parents ⟨opening, members, closing⟩ =>
    .type (.interfaceType name generics parents ⟨opening, members, closing⟩) inBody ::
      interfaceDeclared members
  | .annotationType name comments => [.type (.annotationType name comments) inBody]

/-- What is declared in members. -/
def membersDeclared : List Member → List Declared
  | [] => []
  | m :: rest => m.declared ++ membersDeclared rest

/-- What is declared in a member. -/
def Member.declared : Member → List Declared
  | .empty _ | .fields _ _ _ _ => []
  | .initializer _ body | .constructor _ _ _ _ body => bodyDeclared body
  | .method _ _ _ body => methodDeclared body
  | .type _ decl => decl.declared false

/-- What is declared in the constants of an enum. -/
def constantsDeclared : List (EnumConstant Member) → List Declared
  | [] => []
  | ⟨_, name, _, body⟩ :: rest => constantBodyDeclared name body ++ constantsDeclared rest

/-- The body of the constant `name` of an enum, if there is one, and what is declared in it. -/
def constantBodyDeclared (name : String) : Option (TypeBody Member) → List Declared
  | none => []
  | some ⟨opening, members, closing⟩ =>
    .constantBody name ⟨opening, members, closing⟩ :: membersDeclared members

/-- What is declared in the members of an interface. -/
def interfaceDeclared : List InterfaceMember → List Declared
  | [] => []
  | m :: rest => m.declared ++ interfaceDeclared rest

/-- What is declared in a member of an interface. -/
def InterfaceMember.declared : InterfaceMember → List Declared
  | .empty _ | .constants _ _ | .method _ => []
  | .type _ decl => decl.declared false

/-- What is declared in the body of a method. -/
def methodDeclared : MethodBody Statement → List Declared
  | .block body => bodyDeclared body
  | .abstract | .native => []

/-- What is declared in statements. -/
def bodyDeclared : List Statement → List Declared
  | [] => []
  | s :: rest => s.declared ++ bodyDeclared rest

/-- What is declared in a statement. -/
def Statement.declared : Statement → List Declared
  | .type _ decl => decl.declared true
  | .block body | .loop _ body | .labeled _ body => bodyDeclared body
  | .ifThen _ thenBranch elseBranch => bodyDeclared thenBranch ++ elseDeclared elseBranch
  | .switch _ groups => groupsDeclared groups
  | .comment _ | .variables _ | .expr _ | .leave _ | .return _ | .throw _ | .invoke _ => []

/-- What is declared in an else branch. -/
def elseDeclared : Option (List Statement) → List Declared
  | none => []
  | some body => bodyDeclared body

/-- What is declared in the groups of a switch. -/
def groupsDeclared : List (SwitchGroup Statement) → List Declared
  | [] => []
  | ⟨_, body⟩ :: rest => bodyDeclared body ++ groupsDeclared rest

end

/-- Everything that a unit declares, in order. -/
def CompilationUnit.declared (u : CompilationUnit) : List Declared :=
  u.types.flatMap fun t => t.2.declared false

/-- What a type is declared as; annotation types count as interfaces. -/
def TypeDecl.kind : TypeDecl → DeclKind
  | .classType .. => .classType
  | .enumType .. => .enumType
  | .interfaceType .. | .annotationType .. => .interfaceType

/-- What the module of a declaration is made for. -/
def Declared.origin : Declared → Origin
  | .type decl inBody => .type decl.kind inBody
  | .constantBody .. => .constantBody

/-- The origins of the modules of a unit, in order. -/
def CompilationUnit.origins (u : CompilationUnit) : List Origin :=
  u.declared.map Declared.origin

/-! ## Parameter lists -/

mutual

/-- The parameter lists in a type are tidy. -/
def TypeDecl.Tidy : TypeDecl → Prop
  | .classType _ _ _ _ _ body => BodyTidy body
  | .enumType _ _ constants body => ConstantsTidy constants ∧ BodyTidy body
  | .interfaceType _ _ _ ⟨_, members, _⟩ => InterfaceTidy members
  | .annotationType _ _ => True

/-- The parameter lists in the body of a class or an enum are tidy. -/
def BodyTidy : TypeBody Member → Prop
  | ⟨_, members, _⟩ => MembersTidy members

/-- The parameter lists in members are tidy. -/
def MembersTidy : List Member → Prop
  | [] => True
  | m :: rest => m.Tidy ∧ MembersTidy rest

/-- The parameter lists in a member are tidy. -/
def Member.Tidy : Member → Prop
  | .empty _ | .fields _ _ _ _ => True
  | .initializer _ body => StatementsTidy body
  | .method signature _ _ body => VariadicLast signature.params ∧ MethodTidy body
  | .constructor _ _ params _ body => VariadicLast params ∧ StatementsTidy body
  | .type _ decl => decl.Tidy

/-- The parameter lists in the constants of an enum are tidy. -/
def ConstantsTidy : List (EnumConstant Member) → Prop
  | [] => True
  | ⟨_, _, _, body⟩ :: rest => ConstantBodyTidy body ∧ ConstantsTidy rest

/-- The parameter lists in the body of an enum constant are tidy. -/
def ConstantBodyTidy : Option (TypeBody Member) → Prop
  | none => True
  | some body => BodyTidy body

/-- The parameter lists in the members of an interface are tidy. -/
def InterfaceTidy : List InterfaceMember → Prop
  | [] => True
  | m :: rest => m.Tidy ∧ InterfaceTidy rest

/-- The parameter lists in a member of an interface are tidy. -/
def InterfaceMember.Tidy : InterfaceMember → Prop
  | .empty _ | .constants _ _ => True
  | .method signature => VariadicLast signature.params
  | .type _ decl => decl.Tidy

/-- The parameter lists in the body of a method are tidy. -/
def MethodTidy : MethodBody Statement → Prop
  | .block body => StatementsTidy body
  | .abstract | .native => True

/-- The parameter lists in statements are tidy. -/
def StatementsTidy : List Statement → Prop
  | [] => True
  | s :: rest => s.Tidy ∧ StatementsTidy rest

/-- The parameter lists in a statement are tidy. -/
def Statement.Tidy : Statement → Prop
  | .type _ decl => decl.Tidy
  | .block body | .loop _ body | .labeled _ body => StatementsTidy body
  | .ifThen _ thenBranch elseBranch => StatementsTidy thenBranch ∧ ElseTidy elseBranch
  | .switch _ groups => GroupsTidy groups
  | .comment _ | .variables _ | .expr _ | .leave _ | .return _ | .throw _ | .invoke _ => True

/-- The parameter lists in an `else` branch are tidy. -/
def ElseTidy : Option (List Statement) → Prop
  | none => True
  | some body => StatementsTidy body

/-- The parameter lists in the groups of a switch are tidy. -/
def GroupsTidy : List (SwitchGroup Statement) → Prop
  | [] => True
  | ⟨_, body⟩ :: rest => StatementsTidy body ∧ GroupsTidy rest

end

/-- The parameter lists of a unit are tidy. -/
def CompilationUnit.Tidy (u : CompilationUnit) : Prop :=
  ∀ declared ∈ u.types, declared.2.Tidy

theorem membersTidy_iff {members : List Member} : MembersTidy members ↔ ∀ m ∈ members, m.Tidy := by
  induction members with
  | nil => simp [MembersTidy]
  | cons m rest ih => simp [MembersTidy, ih]

theorem constantsTidy_iff {constants : List (EnumConstant Member)} :
    ConstantsTidy constants ↔ ∀ c ∈ constants, ConstantBodyTidy c.body := by
  induction constants with
  | nil => simp [ConstantsTidy]
  | cons c rest ih => simp [ConstantsTidy, ih]

theorem interfaceTidy_iff {members : List InterfaceMember} :
    InterfaceTidy members ↔ ∀ m ∈ members, m.Tidy := by
  induction members with
  | nil => simp [InterfaceTidy]
  | cons m rest ih => simp [InterfaceTidy, ih]

theorem statementsTidy_iff {body : List Statement} :
    StatementsTidy body ↔ ∀ s ∈ body, s.Tidy := by
  induction body with
  | nil => simp [StatementsTidy]
  | cons s rest ih => simp [StatementsTidy, ih]

theorem groupsTidy_iff {groups : List (SwitchGroup Statement)} :
    GroupsTidy groups ↔ ∀ g ∈ groups, StatementsTidy g.body := by
  induction groups with
  | nil => simp [GroupsTidy]
  | cons g rest ih => simp [GroupsTidy, ih]

end Rubify.Syntax
