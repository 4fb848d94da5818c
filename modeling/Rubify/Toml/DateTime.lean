import Rubify.Text.Digit
import Rubify.Text.Scan

/-!
# TOML dates and times

A date, a time, or both with an optional offset. Every part has a fixed number of digits and must
exist: there is no 30 February, but a second 60.
-/

namespace Rubify.Toml

open Text (Scan ofDigits)

/-- A number of exactly `size` digits. -/
def fixedDigits (size : Nat) : Scan Nat := fun cs =>
  let ds := cs.take size
  if ds.length = size && ds.all Char.isDigit then some (ofDigits 10 ds, cs.drop size) else none

/-- The characters behind a given one. -/
def afterChar? (c : Char) : List Char → Option (List Char)
  | [] => none
  | d :: rest => if d = c then some rest else none

/-- How many days a month has. -/
def daysIn (year month : Nat) : Nat :=
  if month = 2 then
    if year % 4 = 0 && (year % 100 ≠ 0 || year % 400 = 0) then 29 else 28
  else if [4, 6, 9, 11].contains month then 30
  else 31

/-- The characters behind a date. -/
def date? (cs : List Char) : Option (List Char) := do
  let (year, cs) ← fixedDigits 4 cs
  let (month, cs) ← fixedDigits 2 (← afterChar? '-' cs)
  let (day, cs) ← fixedDigits 2 (← afterChar? '-' cs)
  if 1 ≤ month && month ≤ 12 && 1 ≤ day && day ≤ daysIn year month then some cs else none

/-- The characters behind the hours and minutes of a time. -/
def minutes? (cs : List Char) : Option (List Char) := do
  let (hour, cs) ← fixedDigits 2 cs
  let (minute, cs) ← fixedDigits 2 (← afterChar? ':' cs)
  if hour ≤ 23 && minute ≤ 59 then some cs else none

/-- The characters behind a fraction of a second, if there is one. -/
def skipFraction (cs : List Char) : List Char :=
  match cs with
  | '.' :: rest => if rest.head?.any Char.isDigit then rest.dropWhile Char.isDigit else cs
  | _ => cs

/-- The characters behind a time. -/
def time? (cs : List Char) : Option (List Char) := do
  let cs ← minutes? cs
  let (second, cs) ← fixedDigits 2 (← afterChar? ':' cs)
  if second ≤ 60 then some (skipFraction cs) else none

/-- The characters behind an offset, if there is one. -/
def skipOffset (cs : List Char) : List Char :=
  match cs with
  | c :: rest =>
    if c = 'Z' || c = 'z' then rest
    else if c = '+' || c = '-' then (minutes? rest).getD cs
    else cs
  | [] => []

/-- The characters behind the time of a date, if there is one. -/
def skipTimeOfDay (cs : List Char) : List Char :=
  match cs with
  | c :: rest =>
    if c = 'T' || c = 't' || c = ' ' then ((time? rest).map skipOffset).getD cs else cs
  | [] => []

/-- The characters behind a date, a time, or both. -/
def dateTime? (cs : List Char) : Option (List Char) :=
  match date? cs with
  | some rest => some (skipTimeOfDay rest)
  | none => time? cs

end Rubify.Toml
