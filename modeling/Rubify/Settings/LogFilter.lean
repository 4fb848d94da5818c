import Rubify.Settings.Basic
import Rubify.Text.Digit
import Rubify.Text.Whitespace
import Rubify.Text.Word

/-!
# Log filters (§10.2)

A filter is a list of directives, each a level for one target or, without target, for everything
else. It is written as `target=level` or `level`, divided by commas. A later directive for the same
target replaces an earlier one, and the more specific directives come first: those with the longer
target, and those without one last.

The configured level and the directives of the environment are put together as texts, so the
environment wins. Directives that cannot be read are passed over: the configured ones if only they are
at fault, otherwise those of the environment. How a text of directives is read is left open
(`FilterReader`); `LogFilter` is one way.
-/

namespace Rubify

/-- How much is logged. -/
inductive Level
  | off | error | warn | info | debug | trace
  deriving DecidableEq, Repr

namespace Level

/-- All levels, from nothing to everything. -/
def all : List Level :=
  [off, error, warn, info, debug, trace]

/-- The name of a level. -/
def name : Level → String
  | off => "off"
  | error => "error"
  | warn => "warn"
  | info => "info"
  | debug => "debug"
  | trace => "trace"

/-- The number that digits spell, a plus sign in front of them allowed. -/
def number? (cs : List Char) : Option Nat :=
  let digits := if cs.head? = some '+' then cs.drop 1 else cs
  if digits.isEmpty || !digits.all Char.isDigit then none
  else some (Text.ofDigits 10 digits)

/-- The level that a name in any case, or a number up to five, stands for. -/
def ofText? (text : String) : Option Level :=
  match number? text.toList with
  | some n => all[n]?
  | none => all.find? fun level => level.name.toList = text.toList.map Char.toLower

end Level

/-- A level for one target, or for everything that has no directive of its own. -/
structure Directive where
  target : Option String
  level : Level
  deriving DecidableEq, Repr

namespace Directive

/-- Whether a character can begin a directive. -/
def begins (c : Char) : Bool :=
  c = '-' || c = ':' || c = '_' || Text.isAlphanumeric c

/-- A directive that is one word: a level, or a target at the most detailed level. -/
def ofWord? (word : List Char) : Option Directive :=
  if !(word.dropWhile Text.whitespace.contains).head?.any begins || word.contains '[' then none
  else
    match Level.ofText? (String.ofList word) with
    | some level => some ⟨none, level⟩
    | none => some ⟨some (String.ofList word), .trace⟩

/-- The directive of a target and the text of its level; no text is the most detailed level. -/
def ofPair? (target level : List Char) : Option Directive :=
  if !target.head?.any begins || target.contains '[' then none
  else if level.isEmpty then some ⟨some (String.ofList target), .trace⟩
  else (Level.ofText? (String.ofList level)).map fun level => ⟨some (String.ofList target), level⟩

/-- Reads a directive. -/
def ofChars? (cs : List Char) : Option Directive :=
  match cs.span (· ≠ '=') with
  | (word, []) => ofWord? word
  | (target, _ :: level) => ofPair? target level

/-- The directive as it is written. -/
def text (d : Directive) : String :=
  (d.target.map (· ++ "=")).getD "" ++ d.level.name

/-- Whether a target comes before another: the longer one, or the later one in the alphabet. -/
def targetBefore : Option String → Option String → Bool
  | none, _ => false
  | some _, none => true
  | some a, some b => a.utf8ByteSize > b.utf8ByteSize || (a.utf8ByteSize = b.utf8ByteSize && b < a)

end Directive

/-- Directives, at most one for each target, the more specific ones first. -/
structure LogFilter where
  directives : List Directive
  deriving DecidableEq, Repr

namespace LogFilter

/-- Puts a directive among ordered ones, in place of one for the same target. -/
def insert (d : Directive) : List Directive → List Directive
  | [] => [d]
  | e :: rest =>
    if d.target = e.target then d :: rest
    else if Directive.targetBefore d.target e.target then d :: e :: rest
    else e :: insert d rest

/-- The filter of directives, later ones replacing earlier ones. -/
def ofDirectives (directives : List Directive) : LogFilter :=
  ⟨directives.foldl (fun sorted d => insert d sorted) []⟩

/-- The filter that logs everything up to a level. -/
def ofLevel (level : Level) : LogFilter := ⟨[⟨none, level⟩]⟩

/-- What stands between the commas of a text, unless that is empty. -/
def entries (text : String) : List (List Char) :=
  (text.toList.splitOn ',').filter fun entry => !entry.isEmpty

/-- Reads directives divided by commas, if all of them can be read. -/
def ofText? (text : String) : Option LogFilter :=
  if (entries text).all fun entry => (Directive.ofChars? entry).isSome then
    some (ofDirectives ((entries text).filterMap Directive.ofChars?))
  else none

/-- The filter as it is written. Without directives nothing is logged. -/
def text (f : LogFilter) : String :=
  if f.directives.isEmpty then Level.off.name
  else ",".intercalate (f.directives.map Directive.text)

/-- The level set for a target, or without one for everything else. -/
def level? (f : LogFilter) (target : Option String) : Option Level :=
  (f.directives.find? (·.target = target)).map Directive.level

end LogFilter

/-- How texts of directives become filters of some kind. -/
structure FilterReader (F : Type) where
  /-- The filter of a text, if it can be read. -/
  ofText? : String → Option F
  /-- The filter that logs everything up to a level. -/
  ofLevel : Level → F

/-- The filters above. -/
def LogFilter.reader : FilterReader LogFilter :=
  ⟨LogFilter.ofText?, LogFilter.ofLevel⟩

namespace Logging

/-- The configured directives: a level may be written in any case and with white space around it,
and warnings are the default. -/
def directives (l : Logging) : String :=
  let trimmed := Text.trim l.level
  let lower := String.ofList (trimmed.toList.map Char.toLower)
  if trimmed = "" then Level.warn.name
  else if lower = "warning" then Level.warn.name
  else if ["trace", "debug", "info", "warn", "error"].contains lower then lower
  else trimmed

section

variable {F : Type} (r : FilterReader F)

/-- The filter of the configured directives alone. -/
def configuredFilter (l : Logging) : F :=
  (r.ofText? l.directives).getD (r.ofLevel .warn)

/-- The filter, given the directives that the environment sets. -/
def filterWith (l : Logging) (environment : Option String) : F :=
  let extra := Text.trim (environment.getD "")
  if extra = "" then l.configuredFilter r
  else
    ((r.ofText? (l.directives ++ "," ++ extra)).orElse fun _ => r.ofText? extra).getD
      (l.configuredFilter r)

end

/-- The filter as it is in use. -/
def filter (l : Logging) (environment : Option String) : LogFilter :=
  l.filterWith LogFilter.reader environment

end Logging

end Rubify
