import Rubify.Text.Digit
import Rubify.Text.Scan

/-!
# TOML texts: blanks, comments, strings and keys

A string stands between quotes, where escapes are read, or between apostrophes, where nothing is. It
may span lines between three of them; then a line feed right behind the opening is dropped, one or
two quotes may stand directly in front of the closing, and a backslash at the end of a line joins it
with the next one that shows anything.
-/

namespace Rubify.Toml

open Text (Scan after? hexDigit? ofDigits)

/-! ## Blanks, line ends and comments -/

/-- The characters that may stand between the parts of a line. -/
def isBlank (c : Char) : Bool :=
  c = ' ' || c = '\t'

/-- The characters from the first that is not blank on. -/
def skipBlank (cs : List Char) : List Char :=
  cs.dropWhile isBlank

/-- The characters behind a line end. -/
def newline? : List Char → Option (List Char)
  | '\n' :: rest => some rest
  | '\r' :: '\n' :: rest => some rest
  | _ => none

/-- The characters a comment may hold: no controls but the tab. -/
def isPlain (c : Char) : Bool :=
  c = '\t' || (' ' ≤ c && c ≠ Char.ofNat 0x7f)

/-- The characters behind the end of a line: blanks and a comment may come first, and the end of the
text ends a line too. -/
def lineEnd? (cs : List Char) : Option (List Char) :=
  let rest :=
    match skipBlank cs with
    | '#' :: rest => rest.dropWhile isPlain
    | rest => rest
  if rest.isEmpty then some [] else newline? rest

/-- The characters from the first that is neither blank nor a line end nor in a comment on; a comment
must be ended. -/
def skipLines (inComment : Bool) : List Char → Option (List Char)
  | [] => if inComment then none else some []
  | '\r' :: '\n' :: rest => skipLines false rest
  | c :: rest =>
    if c = '\n' then skipLines false rest
    else if inComment then (if isPlain c then skipLines true rest else none)
    else if isBlank c then skipLines false rest
    else if c = '#' then skipLines true rest
    else if c = '\r' then none
    else some (c :: rest)

/-- The characters from the first that is neither blank nor a line end on. -/
def skipBlankLines : List Char → List Char
  | '\r' :: '\n' :: rest => skipBlankLines rest
  | c :: rest => if isBlank c || c = '\n' then skipBlankLines rest else c :: rest
  | [] => []

/-! ## Escapes -/

/-- The character that a one-letter escape stands for. -/
def shortEscape? (c : Char) : Option Char :=
  if c = '"' || c = '\\' then some c
  else if c = 'b' then some (Char.ofNat 8)
  else if c = 'f' then some (Char.ofNat 12)
  else if c = 'n' then some '\n'
  else if c = 'r' then some '\r'
  else if c = 't' then some '\t'
  else none

/-- The character whose code point `size` hexadecimal digits spell. -/
def codePoint? (size : Nat) : Scan Char := fun cs =>
  let digits := cs.take size
  let n := ofDigits 16 digits
  if digits.length = size && digits.all (fun c => (hexDigit? c).isSome) && decide n.isValidChar then
    some (Char.ofNat n, cs.drop size)
  else none

/-- The character that an escape stands for, behind its backslash. -/
def escape? : Scan Char
  | [] => none
  | c :: rest =>
    if c = 'u' then codePoint? 4 rest
    else if c = 'U' then codePoint? 8 rest
    else (shortEscape? c).map (·, rest)

theorem escape?_length {cs rest : List Char} {c : Char} (h : escape? cs = some (c, rest)) :
    rest.length < cs.length := by
  cases cs with
  | nil => cases h
  | cons d ds =>
    simp only [escape?, codePoint?] at h
    split at h
    · split at h
      · cases h; simp only [List.length_drop, List.length_cons]; omega
      · cases h
    · split at h
      · split at h
        · cases h; simp only [List.length_drop, List.length_cons]; omega
        · cases h
      · obtain ⟨e, _, he⟩ := Option.map_eq_some_iff.1 h
        cases he; simp

theorem skipBlankLines_length (cs : List Char) : (skipBlankLines cs).length ≤ cs.length := by
  fun_induction skipBlankLines cs with
  | case1 rest ih => simp only [List.length_cons]; omega
  | case2 c rest _ _ ih => simp only [List.length_cons]; omega
  | case3 => exact Nat.le_refl _
  | case4 => exact Nat.le_refl _

/-! ## Strings -/

/-- A string behind its opening quote. -/
def basicString (cs : List Char) : Option (List Char × List Char) :=
  match cs with
  | [] => none
  | '"' :: rest => some ([], rest)
  | '\\' :: rest =>
    match _h : escape? rest with
    | none => none
    | some (c, more) => do
      let (text, more) ← basicString more
      return (c :: text, more)
  | c :: rest =>
    if isPlain c then do
      let (text, more) ← basicString rest
      return (c :: text, more)
    else none
termination_by cs.length
decreasing_by
  all_goals simp only [List.length_cons]
  all_goals grind [→ escape?_length]

/-- A string behind its opening apostrophe. -/
def literalString : List Char → Option (List Char × List Char)
  | [] => none
  | '\'' :: rest => some ([], rest)
  | c :: rest =>
    if isPlain c then do
      let (text, more) ← literalString rest
      return (c :: text, more)
    else none

/-- The marks in front of a closing of three marks that belong to the string, and what follows the
closing; `cs` stands behind the first three marks. -/
def closing (mark : Char) (cs : List Char) : List Char × List Char :=
  match cs with
  | a :: b :: rest =>
    if a = mark && b = mark then ([mark, mark], rest)
    else if a = mark then ([mark], b :: rest)
    else ([], cs)
  | [a] => if a = mark then ([mark], []) else ([], cs)
  | [] => ([], [])

/-- A string of several lines behind its opening quotes. -/
def basicLines (cs : List Char) : Option (List Char × List Char) :=
  match cs with
  | [] => none
  | '"' :: '"' :: '"' :: rest => some (closing '"' rest)
  | '\r' :: '\n' :: rest => do
    let (text, more) ← basicLines rest
    return ('\n' :: text, more)
  | '\\' :: rest =>
    match newline? (skipBlank rest), _h : escape? rest with
    | some _, _ => basicLines (skipBlankLines rest)
    | none, none => none
    | none, some (c, more) => do
      let (text, more) ← basicLines more
      return (c :: text, more)
  | c :: rest =>
    if isPlain c || c = '\n' then do
      let (text, more) ← basicLines rest
      return (c :: text, more)
    else none
termination_by cs.length
decreasing_by
  all_goals simp only [List.length_cons]
  all_goals grind [→ escape?_length, skipBlankLines_length]

/-- A string of several lines behind its opening apostrophes. -/
def literalLines : List Char → Option (List Char × List Char)
  | [] => none
  | '\'' :: '\'' :: '\'' :: rest => some (closing '\'' rest)
  | '\r' :: '\n' :: rest => do
    let (text, more) ← literalLines rest
    return ('\n' :: text, more)
  | c :: rest =>
    if isPlain c || c = '\n' then do
      let (text, more) ← literalLines rest
      return (c :: text, more)
    else none

/-- The characters without a line end in front. -/
def dropNewline (cs : List Char) : List Char :=
  (newline? cs).getD cs

/-- A string. -/
def string : Scan String := fun cs =>
  let chars :=
    match cs with
    | '"' :: '"' :: '"' :: rest => basicLines (dropNewline rest)
    | '"' :: rest => basicString rest
    | '\'' :: '\'' :: '\'' :: rest => literalLines (dropNewline rest)
    | '\'' :: rest => literalString rest
    | _ => none
  chars.map fun (text, rest) => (String.ofList text, rest)

/-! ## Keys -/

/-- The characters of a key without quotes. -/
def isBare (c : Char) : Bool :=
  c.isAlphanum || c = '-' || c = '_'

/-- One segment of a key. -/
def keySegment : Scan String := fun cs =>
  let chars :=
    match cs with
    | '"' :: rest => basicString rest
    | '\'' :: rest => literalString rest
    | _ => if cs.head?.any isBare then some (cs.span isBare) else none
  chars.map fun (text, rest) => (String.ofList text, rest)

/-- Segments divided by dots, blanks around each of them allowed; at most `bound` are read. -/
def keySegments : Nat → Scan (List String)
  | 0, _ => none
  | bound + 1, cs => do
    let (segment, cs) ← keySegment (skipBlank cs)
    match skipBlank cs with
    | '.' :: rest => do
      let (more, cs) ← keySegments bound rest
      return (segment :: more, cs)
    | rest => some ([segment], rest)

end Rubify.Toml
