import Rubify.Grammar.Unit
import Rubify.Program.Declare
import Rubify.Ruby.Module
import Rubify.Settings.Basic
import Rubify.Tree.Json

/-!
# From a tree to Ruby (§2, §7)

`Program.Graph.ofTree` reads a tree and declares what it holds; `convert` also writes the modules. An
error anywhere means that nothing is written.

The numbers in the titles of the modules are sections of the specification of the converter. What it
writes to a log while it works is left out.
-/

namespace Rubify

open Grammar (Dialect)

/-- The modules of a tree. -/
def Program.Graph.ofTree (d : Dialect) (tree : Node) : Except BuildError Program.Graph :=
  Program.Graph.ofUnit d <$> Grammar.readUnit d tree

/-- Why a tree cannot be converted. -/
inductive ConvertError
  /-- The text is not a tree. -/
  | tree
  | build (cause : BuildError)
  | render (cause : Ruby.RenderError)

/-- How the settings want modules written. -/
def Settings.options (s : Settings) : Ruby.Options :=
  ⟨s.closureMode, s.emitComments⟩

/-- The Ruby text of a tree. -/
def convert (s : Settings) (tree : Node) : Except ConvertError String := do
  let graph ← (Program.Graph.ofTree .ruby tree).mapError .build
  let written ← (Ruby.takeUnit s.options graph).mapError .render
  return (Layout.writeAll written.1 { indentWidth := s.indentWidth }).out

/-- The Ruby text of a tree that is given as JSON. -/
def convertJson (s : Settings) (json : String) : Except ConvertError String :=
  match Node.ofJson? json with
  | none => .error .tree
  | some tree => convert s tree

end Rubify
