import Rubify.Toml.DateTime
import Rubify.Toml.Number
import Rubify.Toml.Table
import Rubify.Toml.Text

/-!
# TOML documents

A document is pairs and headers, each on a line of its own. Arrays may span lines and end in a comma;
tables between braces may not. Brackets and braces nest less than `maxDepth` deep, and a dotted key
has fewer segments than that.
-/

namespace Rubify.Toml

open Text (Scan after?)

/-- The bound on the depth of nesting. -/
def maxDepth : Nat := 80

/-- A key, possibly dotted. -/
def keyPath : Scan KeyPath := fun cs => do
  let (segments, cs) ← keySegments (maxDepth - 1) cs
  (KeyPath.ofSegments? segments).map (·, cs)

/-! ## Values -/

/-- A number or a date-time. -/
def number : Scan Value := fun cs =>
  let written (rest : List Char) : String := String.ofList (cs.take (cs.length - rest.length))
  match dateTime? cs, float cs with
  | some rest, _ => some (.dateTime (written rest), rest)
  | none, some (_, rest) => some (.float (written rest), rest)
  | none, none => (integer cs).map fun (n, rest) => (.integer n, rest)

/-- A value without brackets. -/
def scalar : Scan Value := fun cs =>
  match cs with
  | [] => none
  | c :: _ =>
    if c = '"' || c = '\'' then (string cs).map fun (text, rest) => (.string text, rest)
    else if c = 't' then (after? "true".toList cs).map (.boolean true, ·)
    else if c = 'f' then (after? "false".toList cs).map (.boolean false, ·)
    else number cs

/-- The items of an array behind its opening bracket or a comma; at most `bound` are read. -/
def arrayItems (item : Scan Value) : Nat → Scan (List Value)
  | 0, _ => none
  | bound + 1, cs => do
    match ← skipLines false cs with
    | ']' :: rest => some ([], rest)
    | cs =>
      let (v, cs) ← item cs
      match ← skipLines false cs with
      | ']' :: rest => some ([v], rest)
      | ',' :: rest =>
        let (more, rest) ← arrayItems item bound rest
        return (v :: more, rest)
      | _ => none

/-- A key, an equals sign and a value. -/
def pair (item : Scan Value) : Scan (KeyPath × Value) := fun cs => do
  let (path, cs) ← keyPath cs
  match cs with
  | '=' :: rest =>
    let (v, rest) ← item (skipBlank rest)
    return ((path, v), rest)
  | _ => none

/-- The pairs of a table between braces; at most `bound` are read. -/
def inlinePairs (item : Scan Value) : Nat → Scan (List (KeyPath × Value))
  | 0, _ => none
  | bound + 1, cs => do
    let (p, cs) ← pair item cs
    match skipBlank cs with
    | '\x7d' :: rest => some ([p], rest)
    | ',' :: rest =>
      let (more, rest) ← inlinePairs item bound rest
      return (p :: more, rest)
    | _ => none

/-- A table behind its opening brace. -/
def inlineTable (item : Scan Value) : Scan Value := fun cs =>
  match skipBlank cs with
  | '\x7d' :: rest => some (.table .inline [], rest)
  | _ => do
    let (pairs, rest) ← inlinePairs item (cs.length + 1) cs
    let es ← Entries.addPairs .inline [] pairs
    return (.table .inline es, rest)

/-- A value in which brackets and braces nest at most `depth` deep. -/
def value : Nat → Scan Value
  | 0, cs => scalar cs
  | depth + 1, cs =>
    match cs with
    | '[' :: rest =>
      (arrayItems (value depth) (rest.length + 1) rest).map fun (items, rest) =>
        (.array items, rest)
    | '\x7b' :: rest => inlineTable (value depth) rest
    | _ => scalar cs

/-! ## Lines -/

/-- What a line says. -/
inductive Line
  | empty
  | pair (path : KeyPath) (v : Value)
  | header (h : Header)

/-- A header behind its opening bracket. -/
def header : Scan Header
  | '[' :: rest => do
    let (path, rest) ← keyPath rest
    return (.item path, ← after? "]]".toList rest)
  | rest => do
    let (path, rest) ← keyPath rest
    return (.table path, ← after? "]".toList rest)

/-- A line without its end; blanks in front of it are skipped. -/
def lineStart : Scan Line := fun cs =>
  match skipBlank cs with
  | [] => some (.empty, [])
  | c :: rest =>
    if c = '[' then (header rest).map fun (h, rest) => (.header h, rest)
    else if c = '#' || c = '\n' || c = '\r' then some (.empty, c :: rest)
    else (pair (value (maxDepth - 1)) (c :: rest)).map fun ((path, v), rest) => (.pair path v, rest)

/-- The lines of a text; at most `bound` are read. -/
def lines : Nat → List Char → Option (List Line)
  | 0, _ => none
  | _ + 1, [] => some []
  | bound + 1, cs => do
    let (line, rest) ← lineStart cs
    return line :: (← lines bound (← lineEnd? rest))

/-- The pairs in front of the first header, and the sections of the headers. -/
def sections : List Line → List (KeyPath × Value) × List Section
  | [] => ([], [])
  | .empty :: rest => sections rest
  | .pair path v :: rest => ((path, v) :: (sections rest).1, (sections rest).2)
  | .header h :: rest => ([], ⟨h, (sections rest).1⟩ :: (sections rest).2)

/-- The text without a byte-order mark in front. -/
def dropMark (cs : List Char) : List Char :=
  if cs.head? = some (Char.ofNat 0xfeff) then cs.drop 1 else cs

/-- Reads a document. A line has at least one character. -/
def parse? (text : String) : Option Entries := do
  let cs := dropMark text.toList
  let (pairs, sections) := sections (← lines (cs.length + 1) cs)
  assemble pairs sections

end Rubify.Toml
