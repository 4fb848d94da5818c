import Rubify.Text.Lines
import Rubify.Text.Whitespace

/-!
# Writing indented lines (§6)

An `Emitter` holds the text written so far and the indentation of the next line. Whole lines are
written at the current level; a line that shows nothing is written without any characters. A part
can be written into a buffer of its own first and spliced in later at whatever level is current
then.
-/

namespace Rubify

/-- Text under construction. -/
structure Emitter where
  /-- Spaces for each level of indentation. -/
  indentWidth : Nat := 2
  /-- What ends a line. -/
  newline : String := "\n"
  level : Nat := 0
  out : String := ""

namespace Emitter

/-- The spaces in front of a line at the current level. -/
def indent (e : Emitter) : String :=
  String.ofList (List.replicate (e.level * e.indentWidth) ' ')

/-- The emitter with `text` written behind what is there. -/
def append (e : Emitter) (text : String) : Emitter :=
  { e with out := e.out ++ text }

/-- Whether nothing has been written. -/
def isEmpty (e : Emitter) : Bool :=
  e.out = ""

/-- One line without line feeds, indented if it shows anything. -/
def row (e : Emitter) (text : String) : Emitter :=
  (if Text.isBlank text then e else (e.append e.indent).append text).append e.newline

/-- Every line of `text` at the current level; the empty text is one empty line. -/
def line (e : Emitter) (text : String) : Emitter :=
  if text = "" then e.append e.newline else (Text.lines text).foldl row e

/-- Whether the text ends with an empty line. -/
def endsBlank (e : Emitter) : Bool :=
  (e.newline ++ e.newline).toList.isSuffixOf e.out.toList

/-- One empty line, unless nothing has been written or the text ends with one. -/
def blank (e : Emitter) : Emitter :=
  if e.isEmpty || e.endsBlank then e else e.append e.newline

/-- Runs `body` one level deeper. -/
def indented {α : Type} (e : Emitter) (body : Emitter → Emitter × α) : Emitter × α :=
  let (inner, result) := body { e with level := e.level + 1 }
  ({ inner with level := e.level }, result)

/-- Runs `body` on an empty emitter at level zero and gives what it wrote. -/
def buffered {α : Type} (e : Emitter) (body : Emitter → Emitter × α) : String × α :=
  let (inner, result) := body { indentWidth := e.indentWidth, newline := e.newline }
  (inner.out, result)

/-- One piece of a buffer, indented if it shows anything. -/
def splicePiece (e : Emitter) : List Char × Bool → Emitter
  | (text, ended) =>
    let e := if Text.isBlank (String.ofList text) then e else e.append e.indent
    (e.append (String.ofList text)).append (if ended then "\n" else "")

/-- Writes a buffer at the current level. -/
def splice (e : Emitter) (buffer : String) : Emitter :=
  (Text.pieces buffer.toList).foldl splicePiece e

end Emitter

end Rubify
