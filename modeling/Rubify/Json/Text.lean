import Rubify.Text.Digit

/-!
# JSON strings

`write` puts a text between quotes, `read` takes the characters behind an opening quote back to the
text. Writing escapes the quote, the backslash and the control characters only. Reading is strict:
no raw control characters, no unknown escapes, and a surrogate only as half of a pair.
-/

namespace Rubify.Json

open Text (hexDigit?)

/-- How one character is written in a string. -/
def writeChar (c : Char) : String :=
  if c = '"' then "\\\""
  else if c = '\\' then "\\\\"
  else if c = '\n' then "\\n"
  else if c = '\r' then "\\r"
  else if c = '\t' then "\\t"
  else if c.toNat = 8 then "\\b"
  else if c.toNat = 12 then "\\f"
  else if c.toNat < 16 then "\\u000" ++ Text.hex c.toNat
  else if c.toNat < 32 then "\\u00" ++ Text.hex c.toNat
  else c.toString

/-- A text as a string literal. -/
def write (text : String) : String :=
  "\"" ++ String.join (text.toList.map writeChar) ++ "\""

/-- The number that four hexadecimal digits spell. -/
def hex4? (a b c d : Char) : Option Nat := do
  return (((← hexDigit? a) * 16 + (← hexDigit? b)) * 16 + (← hexDigit? c)) * 16 + (← hexDigit? d)

/-- The character a one-letter escape stands for. -/
def escaped? (c : Char) : Option Char :=
  if c = '"' ∨ c = '\\' ∨ c = '/' then some c
  else if c = 'b' then some (Char.ofNat 8)
  else if c = 'f' then some (Char.ofNat 12)
  else if c = 'n' then some '\n'
  else if c = 'r' then some '\r'
  else if c = 't' then some '\t'
  else none

/-- Whether a code unit is the first half of a surrogate pair. -/
def isHighSurrogate (n : Nat) : Bool := 0xd800 ≤ n && n ≤ 0xdbff

/-- Whether a code unit is the second half of a surrogate pair. -/
def isLowSurrogate (n : Nat) : Bool := 0xdc00 ≤ n && n ≤ 0xdfff

/-- The characters up to the closing quote, and what follows it. -/
def read : List Char → Option (List Char × List Char)
  | [] => none
  | '"' :: rest => some ([], rest)
  | '\\' :: 'u' :: a :: b :: c :: d :: rest => do
    let n ← hex4? a b c d
    if isLowSurrogate n then none
    else if isHighSurrogate n then
      match rest with
      | '\\' :: 'u' :: a :: b :: c :: d :: rest => do
        let low ← hex4? a b c d
        if isLowSurrogate low then
          let (text, rest) ← read rest
          return (Char.ofNat ((n - 0xd800) * 1024 + (low - 0xdc00) + 0x10000) :: text, rest)
        else none
      | _ => none
    else
      let (text, rest) ← read rest
      return (Char.ofNat n :: text, rest)
  | '\\' :: c :: rest => do
    let c ← escaped? c
    let (text, rest) ← read rest
    return (c :: text, rest)
  | c :: rest =>
    if c.toNat < 32 || c = '\\' then none
    else do
      let (text, rest) ← read rest
      return (c :: text, rest)

end Rubify.Json
