import Rubify.Flow.Closure

/-!
# Settings (§10.3)

What can be configured, with the defaults.
-/

namespace Rubify

/-- What is logged, and how. -/
structure Logging where
  /-- A level or a list of filter directives. -/
  level : String := "warn"
  json : Bool := false
  stderr : Bool := true
  deriving DecidableEq, Repr

/-- The settings of a conversion. -/
structure Settings where
  closureMode : Flow.ClosureMode := .compatible
  /-- Spaces for each level of indentation. -/
  indentWidth : Nat := 2
  /-- Whether comments are written. -/
  emitComments : Bool := true
  logging : Logging := {}
  deriving DecidableEq, Repr

end Rubify
