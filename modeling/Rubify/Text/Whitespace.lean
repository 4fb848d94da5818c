import Rubify.Text.CharSet

/-!
# White space

The characters with the Unicode property White_Space, the texts made of nothing else, and the text
between the white space at its ends.
-/

namespace Rubify.Text

/-- The characters with the property White_Space. -/
def whitespace : CharSet := ⟨[
  (0x9, 0xd), (0x20, 0x20), (0x85, 0x85), (0xa0, 0xa0), (0x1680, 0x1680), (0x2000, 0x200a),
  (0x2028, 0x2029), (0x202f, 0x202f), (0x205f, 0x205f), (0x3000, 0x3000)]⟩

/-- Whether a text shows nothing: it is empty or all white space. -/
def isBlank (text : String) : Bool :=
  text.toList.all whitespace.contains

/-- The characters of a list without white space at either end. -/
def trimChars (cs : List Char) : List Char :=
  ((cs.dropWhile whitespace.contains).reverse.dropWhile whitespace.contains).reverse

/-- The text without white space at either end. -/
def trim (text : String) : String :=
  String.ofList (trimChars text.toList)

/-- The maximal runs of characters other than white space, in order. -/
def wordsOf : List Char → List (List Char)
  | [] => []
  | c :: rest =>
    if whitespace.contains c then wordsOf rest
    else
      match rest, wordsOf rest with
      | d :: _, word :: more =>
        if whitespace.contains d then [c] :: word :: more else (c :: word) :: more
      | _, more => [c] :: more

/-- The words of a text. -/
def words (text : String) : List String :=
  (wordsOf text.toList).map String.ofList

end Rubify.Text
