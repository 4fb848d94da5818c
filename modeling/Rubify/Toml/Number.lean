import Rubify.Text.Digit
import Rubify.Text.Scan

/-!
# TOML numbers

Underscores may stand between digits. Integers have 64 bits and a sign; a float must not be too large
for a double-precision number.
-/

namespace Rubify.Toml

open Text (Scan after? isDigitOf ofDigits)

/-- Digits with single underscores between them, behind a first digit; the underscores are left
out. -/
def moreDigits (base : Nat) : List Char → Option (List Char × List Char)
  | [] => some ([], [])
  | '_' :: c :: rest =>
    if isDigitOf base c then do
      let (digits, rest) ← moreDigits base rest
      return (c :: digits, rest)
    else none
  | c :: rest =>
    if isDigitOf base c then do
      let (digits, rest) ← moreDigits base rest
      return (c :: digits, rest)
    else if c = '_' then none
    else some ([], c :: rest)

/-- One or more digits. -/
def digits (base : Nat) : Scan (List Char)
  | [] => none
  | c :: rest =>
    if isDigitOf base c then do
      let (more, rest) ← moreDigits base rest
      return (c :: more, rest)
    else none

/-- An optional sign; whether it is a minus. -/
def sign : List Char → Bool × List Char
  | '+' :: rest => (false, rest)
  | '-' :: rest => (true, rest)
  | cs => (false, cs)

/-- The digits of a decimal integer without sign, which has no leading zeros. -/
def decimalDigits : Scan (List Char)
  | '0' :: rest => some (['0'], rest)
  | cs => digits 10 cs

/-! ## Integers -/

/-- Whether a number fits a signed word of 64 bits. -/
def isWord (n : Int) : Bool :=
  Int64.minValue.toInt ≤ n && n ≤ Int64.maxValue.toInt

/-- An integer in digits of a base, without sign. -/
def basedInteger (base : Nat) : Scan Int := fun cs => do
  let (ds, rest) ← digits base cs
  let n : Int := ofDigits base ds
  if isWord n then some (n, rest) else none

/-- An integer. -/
def integer : Scan Int
  | '0' :: 'x' :: rest => basedInteger 16 rest
  | '0' :: 'o' :: rest => basedInteger 8 rest
  | '0' :: 'b' :: rest => basedInteger 2 rest
  | cs => do
    let (negative, cs) := sign cs
    let (ds, rest) ← decimalDigits cs
    let n : Int := ofDigits 10 ds
    let n := if negative then -n else n
    if isWord n then some (n, rest) else none

/-! ## Floats -/

/-- The least number that is too large for a double-precision number, to which it would be rounded
as infinity. -/
def floatLimit : Nat :=
  Nat.pow 2 1024 - Nat.pow 2 970

/-- Whether `ofDigits 10 ds * 10 ^ exponent` reaches the limit. With `n` digits in front of the point
the number is below `10 ^ n`, and the limit has 309 of them. -/
def exceedsFloat (ds : List Char) (exponent : Int) : Bool :=
  let ds := ds.dropWhile (· = '0')
  let size := ds.length + exponent
  if ds.isEmpty || size < 309 then false
  else if size > 309 then true
  else ofDigits 10 ds * Nat.pow 10 exponent.toNat ≥ floatLimit * Nat.pow 10 (-exponent).toNat

/-- The digits behind a point, if there is one. -/
def fraction : Scan (Option (List Char))
  | '.' :: rest => (digits 10 rest).map fun (ds, rest) => (some ds, rest)
  | cs => some (none, cs)

/-- An exponent, if there is one. -/
def exponent : Scan (Option Int)
  | c :: rest =>
    if c = 'e' || c = 'E' then do
      let (negative, rest) := sign rest
      let (ds, rest) ← digits 10 rest
      let n : Int := ofDigits 10 ds
      return (some (if negative then -n else n), rest)
    else some (none, c :: rest)
  | [] => some (none, [])

/-- A float that is written with a fraction or an exponent. -/
def finiteFloat : Scan Unit := fun cs => do
  let (negative, cs) := sign cs
  let (whole, cs) ← decimalDigits cs
  let (fractional, cs) ← fraction cs
  let (power, cs) ← exponent cs
  if fractional.isNone && power.isNone then none
  else
    let fractional := fractional.getD []
    if !negative && exceedsFloat (whole ++ fractional) (power.getD 0 - fractional.length) then none
    else some ((), cs)

/-- Infinity or an undefined number, with an optional sign. -/
def specialFloat : Scan Unit := fun cs =>
  let (_, cs) := sign cs
  ((after? "inf".toList cs).orElse fun _ => after? "nan".toList cs).map ((), ·)

/-- A float. -/
def float : Scan Unit := fun cs =>
  (finiteFloat cs).orElse fun _ => specialFloat cs

end Rubify.Toml
