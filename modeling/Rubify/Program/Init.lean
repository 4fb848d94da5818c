import Rubify.Program.Module

/-!
# How a constructor sets up the fields (§4.2)

A constructor that calls another one of its class leaves the fields to it. Otherwise, with a
superclass, every field first holds its default, so that the constructor of the superclass never
sees a field that is not there; then that constructor runs, and then the declared initial values are
assigned in order. Without a superclass each field gets its initial value or its default at once.
-/

namespace Rubify.Program

/-- One step in front of the statements of a constructor. -/
inductive InitStep
  /-- The field gets the default of its type. -/
  | default (field : Field)
  /-- The constructor of the superclass runs. -/
  | super (arguments : String)
  /-- The field gets its initial value. -/
  | assign (field : Field)
  /-- Another constructor of the class runs instead. -/
  | delegate (arguments : String)
  deriving DecidableEq, Repr

/-- The steps of a constructor that begins with `invocation` (field initialization, §4.2). -/
def Module.initPlan (m : Module) (invocation : Invocation) : List InitStep :=
  match invocation with
  | .this arguments => [.delegate arguments]
  | .none => plan "()"
  | .super arguments => plan arguments
where
  /-- The steps around a call of the superclass constructor. -/
  plan (arguments : String) : List InitStep :=
    if m.superclass.isNone then
      m.fields.map fun f => if f.init.isSome then .assign f else .default f
    else
      m.fields.map .default ++ [.super arguments] ++
        (m.fields.filter (·.init.isSome)).map .assign

/-- The line that carries out a step. -/
def InitStep.line : InitStep → String
  | .default f => f.instanceVariable ++ " = " ++ f.type.defaultValue
  | .assign f => f.instanceVariable ++ " = " ++ f.value
  | .super arguments => "super" ++ arguments
  | .delegate arguments => "initialize" ++ arguments

end Rubify.Program
