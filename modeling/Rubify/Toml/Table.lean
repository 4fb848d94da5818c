/-!
# TOML values and tables

Floats and date-times are kept as they were written. A table remembers how it came about, because
that decides what may still be added to it:

* a table between braces is complete;
* one that was opened by a header takes no further header and no dotted keys from outside;
* one that was only named on the way to another header may still get a header of its own;
* one that was made by dotted keys may get further dotted keys, but no header.

`Section.addTo` puts the pairs below a header in their place, and gives nothing if they do not
belong there.
-/

namespace Rubify.Toml

/-- How a table came about. -/
inductive TableStyle
  /-- Opened by a header of its own. -/
  | header
  /-- Named on the way to another header. -/
  | implied
  /-- Made by dotted keys. -/
  | dotted
  /-- Written between braces. -/
  | inline
  deriving DecidableEq, Repr

/-- A value. -/
inductive Value
  | string (text : String)
  | integer (n : Int)
  | float (text : String)
  | boolean (b : Bool)
  | dateTime (text : String)
  | array (items : List Value)
  | table (style : TableStyle) (entries : List (String × Value))
  /-- The tables of repeated double-bracket headers. -/
  | tables (items : List (List (String × Value)))

/-- The keys and values of a table, each key once. -/
abbrev Entries := List (String × Value)

/-- A dotted key: the tables on the way, and the last segment. -/
structure KeyPath where
  parents : List String
  key : String
  deriving DecidableEq, Repr

/-- The dotted key of given segments. -/
def KeyPath.ofSegments? (segments : List String) : Option KeyPath :=
  segments.getLast?.map (⟨segments.dropLast, ·⟩)

namespace Entries

/-- The value of a key. -/
def get? (es : Entries) (key : String) : Option Value :=
  es.lookup key

/-- The entries with another value for a key, or with one more entry. -/
def put (key : String) (v : Value) : Entries → Entries
  | [] => [(key, v)]
  | (k, w) :: rest => if k = key then (k, v) :: rest else (k, w) :: put key v rest

/-- Changes the table that a path leads to. Tables missing on the way are made in the style `made`;
dotted keys do not lead into a table that has a header, and nothing leads into a table between
braces. A path through double-bracket tables leads into the last one. -/
def within (made : TableStyle) (change : TableStyle → Entries → Option Entries) :
    List String → TableStyle → Entries → Option Entries
  | [], style, es => change style es
  | key :: rest, _, es =>
    match get? es key with
    | none => do
      let inner ← within made change rest made []
      return put key (.table made inner) es
    | some (.table style inner) =>
      if style = .inline || (made = .dotted && style = .header) then none
      else do
        let inner ← within made change rest style inner
        return put key (.table style inner) es
    | some (.tables items) =>
      match items.getLast? with
      | none => none
      | some last => do
        let inner ← within made change rest .header last
        return put key (.tables (items.dropLast ++ [inner])) es
    | some _ => none

/-- Adds a pair to a table of the given style. The key must be new, and dotted keys add only to
tables that dotted keys have made. -/
def addPair (style : TableStyle) (es : Entries) (pair : KeyPath × Value) : Option Entries :=
  let (path, v) := pair
  within .dotted (fun style es =>
    if decide (style = .dotted) = path.parents.isEmpty || (get? es path.key).isSome then none
    else some (put path.key v es)) path.parents style es

/-- Adds pairs one after another. -/
def addPairs (style : TableStyle) (es : Entries) (pairs : List (KeyPath × Value)) :
    Option Entries :=
  pairs.foldlM (addPair style) es

end Entries

/-- A header. -/
inductive Header
  /-- Opens a table. -/
  | table (path : KeyPath)
  /-- Opens one more of several tables. -/
  | item (path : KeyPath)
  deriving DecidableEq, Repr

/-- A header and the pairs below it. -/
structure Section where
  header : Header
  pairs : List (KeyPath × Value)

/-- What a header makes of the value that is already there. -/
def Section.valueOver (s : Section) (present : Option Value) : Option Value :=
  match s.header, present with
  | .table _, none => (Entries.addPairs .header [] s.pairs).map (.table .header)
  | .table _, some (.table .implied es) =>
    (Entries.addPairs .header es s.pairs).map (.table .header)
  | .item _, none => (Entries.addPairs .header [] s.pairs).map fun es => .tables [es]
  | .item _, some (.tables items) =>
    (Entries.addPairs .header [] s.pairs).map fun es => .tables (items ++ [es])
  | _, _ => none

/-- The path of a header. -/
def Header.path : Header → KeyPath
  | .table path | .item path => path

/-- Adds a section to a document. -/
def Section.addTo (es : Entries) (s : Section) : Option Entries :=
  let path := s.header.path
  Entries.within .implied (fun _ es => do
    let v ← s.valueOver (Entries.get? es path.key)
    return Entries.put path.key v es) path.parents .header es

/-- The document of the pairs above the first header and the sections behind them. -/
def assemble (pairs : List (KeyPath × Value)) (sections : List Section) : Option Entries := do
  let root ← Entries.addPairs .header [] pairs
  sections.foldlM Section.addTo root

end Rubify.Toml
