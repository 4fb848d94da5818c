import Rubify.Text.Digit
import Rubify.Text.ExtendingMark
import Rubify.Text.Ignorable
import Rubify.Text.Unprinted

/-!
# Quoted texts

Error messages show lists of node kinds as quoted texts between brackets. Inside the quotes every
character that would not be seen as itself is written as an escape: the quote and the backslash,
tab, line feed, carriage return and NUL by name, any other unprinted, ignorable or attaching
character by its code point in hexadecimal.
-/

namespace Rubify.Text

/-- Whether a character shows nothing of its own, or shows on the character before it. -/
def isUnseen (c : Char) : Bool :=
  unprinted.contains c || ignorable.contains c || extendingMark.contains c

/-- How one character is written inside quotes. -/
def quotedChar (c : Char) : String :=
  if c = '"' then "\\\""
  else if c = '\\' then "\\\\"
  else if c = '\t' then "\\t"
  else if c = '\r' then "\\r"
  else if c = '\n' then "\\n"
  else if c.toNat = 0 then "\\0"
  else if isUnseen c then
    "\\u\x7b" ++ hex c.toNat ++ "\x7d"
  else c.toString

/-- A text between quotes. -/
def quoted (text : String) : String :=
  "\"" ++ String.join (text.toList.map quotedChar) ++ "\""

/-- A list of texts, quoted, between brackets. -/
def quotedList (texts : List String) : String :=
  "[" ++ ", ".intercalate (texts.map quoted) ++ "]"

end Rubify.Text
