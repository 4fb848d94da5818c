/-!
# Lines

A text is cut after every line feed. `pieces` keeps, with each line, whether a line feed ended it,
so no character is lost; `lines` forgets that and also drops a carriage return in front of the line
feed. A text that ends in a line feed has no further, empty line.
-/

namespace Rubify.Text

/-- The lines of a text, each with whether a line feed ends it. -/
def pieces : List Char → List (List Char × Bool)
  | [] => []
  | c :: rest =>
    if c = '\n' then ([], true) :: pieces rest
    else
      match pieces rest with
      | [] => [([c], false)]
      | (line, ended) :: more => (c :: line, ended) :: more

/-- The line without one carriage return at its end. -/
def dropReturn (line : List Char) : List Char :=
  if line.getLast? = some '\r' then line.dropLast else line

/-- The text of one line; only an ended line can lose a carriage return. -/
def lineOf : List Char × Bool → List Char
  | (line, true) => dropReturn line
  | (line, false) => line

/-- The lines of a text. -/
def lines (text : String) : List String :=
  (pieces text.toList).map fun piece => String.ofList (lineOf piece)

end Rubify.Text
