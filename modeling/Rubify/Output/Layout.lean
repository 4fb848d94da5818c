import Rubify.Output.Emitter

/-!
# Layouts

A layout says which lines are written at which relative level, and which of them stand for comments,
before anything is known about the width of an indentation. `Layout.write` writes one on an emitter.
-/

namespace Rubify

/-- Lines to be written. -/
inductive Layout
  /-- The lines of a text. -/
  | line (text : String)
  /-- The lines of a comment. -/
  | comment (text : String)
  /-- An empty line that separates what stands around it. -/
  | gap
  /-- Lines one level deeper. -/
  | indented (body : List Layout)
  /-- Lines that are written into a buffer of their own and spliced in. -/
  | spliced (body : List Layout)

namespace Layout

mutual

/-- Writes a layout. -/
def write : Layout → Emitter → Emitter
  | .line text, e | .comment text, e => e.line text
  | .gap, e => e.blank
  | .indented body, e => (e.indented fun inner => (writeAll body inner, ())).1
  | .spliced body, e => e.splice (e.buffered fun inner => (writeAll body inner, ())).1

/-- Writes layouts one after another. -/
def writeAll : List Layout → Emitter → Emitter
  | [], e => e
  | l :: rest, e => writeAll rest (write l e)

end

end Layout

end Rubify
