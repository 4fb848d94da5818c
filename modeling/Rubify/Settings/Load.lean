import Rubify.Settings.Basic
import Rubify.Toml.Document

/-!
# Loading settings (§10.3)

Settings are read from TOML. A key that is missing keeps its default, a key that is not known is
ignored, and a known key with a value of the wrong kind is an error. What a TOML parser says about
an error is left out, and so are reports of files that are there but cannot be opened.
-/

namespace Rubify

/-- Why settings cannot be loaded. -/
inductive SettingsError
  /-- There is no such file. -/
  | missing (path : String)
  /-- The file is not valid text. -/
  | notText
  /-- The text is not TOML, or a setting has a wrong value. -/
  | notToml
  deriving DecidableEq, Repr

/-- The report of a missing file. -/
def SettingsError.missingMessage (path : String) : String :=
  "failed to read config file " ++ path ++ ": No such file or directory (os error 2)"

namespace Settings

open Toml (Value Entries)

/-- The value of a key read by `f`, or a default if the key is missing. -/
def keyOr {α : Type} (f : Value → Option α) (fallback : α) (es : Entries) (key : String) :
    Option α :=
  match es.get? key with
  | none => some fallback
  | some v => f v

/-- A truth value. -/
def boolean? : Value → Option Bool
  | .boolean b => some b
  | _ => none

/-- A text. -/
def text? : Value → Option String
  | .string text => some text
  | _ => none

/-- A number that is not negative. -/
def natural? : Value → Option Nat
  | .integer n => if 0 ≤ n then some n.toNat else none
  | _ => none

/-- Whether a value is an empty table or array. -/
def isVacant : Value → Bool
  | .table _ [] | .array [] => true
  | _ => false

/-- The mode of a name. -/
def modeOfName? (name : String) : Option Flow.ClosureMode :=
  if name = "compatible" then some .compatible
  else if name = "strict" then some .strict
  else none

/-- A mode: its name, or a table whose only key is the name and holds nothing. -/
def mode? : Value → Option Flow.ClosureMode
  | .string name => modeOfName? name
  | .table _ [(name, v)] => if isVacant v then modeOfName? name else none
  | _ => none

/-- The logging settings of a table. -/
def loggingOfTable? (es : Entries) : Option Logging := do
  let base : Logging := {}
  return {
    level := ← keyOr text? base.level es "level"
    json := ← keyOr boolean? base.json es "json"
    stderr := ← keyOr boolean? base.stderr es "stderr" }

/-- The logging settings: a table, or an array of them in order. A date-time has none of the known
keys. -/
def logging? : Value → Option Logging
  | .table _ es => loggingOfTable? es
  | .array items =>
    loggingOfTable? (["level", "json", "stderr"].zip items)
  | .dateTime _ => loggingOfTable? []
  | _ => none

/-- The settings of a document. -/
def ofEntries? (es : Entries) : Option Settings := do
  let base : Settings := {}
  return {
    closureMode := ← keyOr mode? base.closureMode es "closure_mode"
    indentWidth := ← keyOr natural? base.indentWidth es "indent_width"
    emitComments := ← keyOr boolean? base.emitComments es "emit_comments"
    logging := ← keyOr logging? base.logging es "logging" }

/-- Reads settings from TOML text. -/
def ofToml (text : String) : Except SettingsError Settings :=
  match Toml.parse? text >>= ofEntries? with
  | some s => .ok s
  | none => .error .notToml

/-- Reads settings from the contents of a file, if there is one at the path. -/
def ofFile (path : String) (contents : Option ByteArray) : Except SettingsError Settings :=
  match contents with
  | none => .error (.missing path)
  | some bytes =>
    match String.fromUTF8? bytes with
    | none => .error .notText
    | some text => ofToml text

end Settings

end Rubify
