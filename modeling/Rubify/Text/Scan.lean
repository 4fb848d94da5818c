/-!
# Scanning texts from the left
-/

namespace Rubify.Text

/-- Reads something off the front of characters and gives what is left of them. -/
abbrev Scan (α : Type) := List Char → Option (α × List Char)

/-- The characters behind `start`, if they begin with it. -/
def after? (start cs : List Char) : Option (List Char) :=
  if start.isPrefixOf cs then some (cs.drop start.length) else none

end Rubify.Text
