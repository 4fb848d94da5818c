import Rubify.Json.Text
import Rubify.Text.Scan

/-!
# Scanning JSON

White space, comma-separated lists between brackets, and values that are checked but not kept.
A value that is not kept is held to the grammar alone: its strings may spell unpaired surrogates
and its brackets nest to any depth.
-/

namespace Rubify.Json

open Text (Scan after?)

/-- The characters from the first that is not white space on. -/
def skipSpace (cs : List Char) : List Char :=
  cs.dropWhile fun c => c = ' ' || c = '\n' || c = '\t' || c = '\r'

/-- Items divided by commas, up to the closing bracket; at most `bound` items are read. -/
def items {α : Type} (item : Scan α) (close : Char) : Nat → Scan (List α)
  | 0, _ => none
  | bound + 1, cs => do
    let (a, cs) ← item cs
    match skipSpace cs with
    | [] => none
    | c :: rest =>
      if c = ',' then
        let (more, cs) ← items item close bound rest
        return (a :: more, cs)
      else if c = close then some ([a], rest)
      else none

/-- The rest of a list behind its opening bracket. An item has at least one character, so there are
no more items than characters. -/
def list {α : Type} (item : Scan α) (close : Char) : Scan (List α) := fun cs =>
  match skipSpace cs with
  | [] => none
  | c :: rest => if c = close then some ([], rest) else items item close (cs.length + 1) cs

/-- A string literal, white space in front of it allowed. -/
def string : Scan String := fun cs =>
  match skipSpace cs with
  | '"' :: rest => (read rest).map fun (text, rest) => (String.ofList text, rest)
  | _ => none

/-- A key and the colon behind it. -/
def key : Scan String := fun cs => do
  let (name, cs) ← string cs
  match skipSpace cs with
  | ':' :: rest => some (name, rest)
  | _ => none

/-! ## Values that are not kept -/

/-- The characters behind a string, checked but not decoded. -/
def skipString : List Char → Option (List Char)
  | [] => none
  | '"' :: rest => some rest
  | '\\' :: 'u' :: a :: b :: c :: d :: rest =>
    if (hex4? a b c d).isSome then skipString rest else none
  | '\\' :: c :: rest => if (escaped? c).isSome then skipString rest else none
  | c :: rest => if c.toNat < 32 || c = '\\' then none else skipString rest

/-- The characters behind one or more digits. -/
def skipDigits (cs : List Char) : Option (List Char) :=
  if cs.head?.any Char.isDigit then some (cs.dropWhile Char.isDigit) else none

/-- The characters behind an optional exponent. -/
def skipExponent : List Char → Option (List Char)
  | c :: rest =>
    if c = 'e' || c = 'E' then
      match rest with
      | sign :: digits => skipDigits (if sign = '+' || sign = '-' then digits else rest)
      | [] => none
    else some (c :: rest)
  | [] => some []

/-- The characters behind an optional fraction and exponent. -/
def skipFraction : List Char → Option (List Char)
  | '.' :: rest => skipDigits rest >>= skipExponent
  | cs => skipExponent cs

/-- The characters behind a number without sign. No other digit follows a leading zero. -/
def skipNumber : List Char → Option (List Char)
  | '0' :: rest => if rest.head?.any Char.isDigit then none else skipFraction rest
  | cs => skipDigits cs >>= skipFraction

/-- The characters behind any value; brackets nest at most `depth` deep. -/
def skipValueTo : Nat → List Char → Option (List Char)
  | 0, _ => none
  | depth + 1, cs =>
    match skipSpace cs with
    | [] => none
    | c :: rest =>
      if c = 'n' then after? "ull".toList rest
      else if c = 't' then after? "rue".toList rest
      else if c = 'f' then after? "alse".toList rest
      else if c = '"' then skipString rest
      else if c = '-' then skipNumber rest
      else if c.isDigit then skipNumber (c :: rest)
      else if c = '[' then
        (list (fun cs => (skipValueTo depth cs).map ((), ·)) ']' rest).map (·.2)
      else if c = '\x7b' then
        (list (fun cs =>
          match skipSpace cs with
          | '"' :: cs => do
            match skipSpace (← skipString cs) with
            | ':' :: cs => (skipValueTo depth cs).map ((), ·)
            | _ => none
          | _ => none) '\x7d' rest).map (·.2)
      else none

/-- The characters behind any value. Brackets cannot nest deeper than there are characters. -/
def skipValue (cs : List Char) : Option (List Char) :=
  skipValueTo (cs.length + 1) cs

end Rubify.Json
