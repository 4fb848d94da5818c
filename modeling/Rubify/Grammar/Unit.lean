import Rubify.Grammar.Declaration

/-!
# Reading compilation units (§4.2)

    compilationUnit ::= packageDeclaration? importDeclaration* typeDeclaration*

Comments in front of the package and the imports belong to the unit, those in front of a type to the
type, and those behind the last type again to the unit.
-/

namespace Rubify.Grammar

open MonadWalk Reader Syntax

variable {n : Node}

/-- An import, inside its declaration. -/
def importIn : Reader n Import := do
  token "import"
  let static ← tryToken "static"
  let path ← qualifiedName
  let wildcard ← tryToken "."
  if wildcard then token "*"
  token ";"
  return ⟨path, static, wildcard⟩

/-- A compilation unit; the comments behind its last type are not taken yet. -/
def unit (d : Dialect) : Reader n CompilationUnit :=
  inside ["compilationUnit"] fun _ _ => do
    let package ← Reader.optional "packageDeclaration" fun _ _ => do
      token "package"
      let path ← qualifiedName
      token ";"
      return path
    let comments ← takeComments
    let imports ← many "importDeclaration" fun _ _ => importIn
    let types ← many "typeDeclaration" fun _ _ => do
      if ← tryToken ";" then return none
      else some <$> inside ["classOrInterfaceDeclaration"] fun c _ => declarationIn d c
    return ⟨package, comments, imports, types.filterMap id, []⟩

/-- Reads a tree as a compilation unit. -/
def readUnit (d : Dialect) (tree : Node) : Except BuildError CompilationUnit := do
  let (u, comments) ← readTree tree (unit d)
  return { u with trailing := comments }

/-- Reads a tree as an expression; also gives the comments passed. -/
def readExpression (tree : Node) : Except BuildError (Expr × List String) :=
  readTree tree (expression .ruby)

end Rubify.Grammar
