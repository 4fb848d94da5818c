import Rubify.Text.Alphabetic
import Rubify.Text.Numeric

/-!
# Characters of names

Which characters can begin a name, which can stand in one, and how a dotted path falls into
segments.
-/

namespace Rubify.Text

/-- Letters of any script, the underscore and the dollar sign begin a name. -/
def beginsName (c : Char) : Bool :=
  alphabetic.contains c || c = '_' || c = '$'

/-- Letters and numbers of any script. -/
def isAlphanumeric (c : Char) : Bool :=
  alphabetic.contains c || numeric.contains c

/-- Whether a token is a name, judged by its first character. -/
def isName (token : String) : Bool :=
  token.toList.head?.any beginsName

/-- The segments between the dots of a path; a path without dots is one segment. -/
def segments (path : String) : List String :=
  (path.toList.splitOn '.').map String.ofList

end Rubify.Text
