import Rubify.Json.Scan
import Rubify.Tree.Node

/-!
# Parse trees as JSON (§6)

A node is written as an object with `kind`, `payload` and `children` in this order, leaving out an
absent payload and empty children. It is read from such an object, whose other keys are ignored and
whose own keys occur at most once, or from an array of the same three parts, whose last one or two
may be missing. At most `maxDepth` arrays and objects are nested, those inside ignored values not
counted; a node and the list of its children are two of them. A text that is no tree has no result:
what a JSON parser says about it is left out.
-/

namespace Rubify.Node

/-! ## Writing -/

/-- The parts of a written object, the children already written. -/
def jsonFields (kind : String) (payload : Option String) (children : List String) : List String :=
  ["\"kind\":" ++ Json.write kind] ++
    (payload.toList.map fun text => "\"payload\":" ++ Json.write text) ++
    (if children.isEmpty then [] else ["\"children\":[" ++ ",".intercalate children ++ "]"])

mutual

/-- The tree as JSON text. -/
def toJson : Node → String
  | ⟨kind, payload, children⟩ =>
    "\x7b" ++ ",".intercalate (jsonFields kind payload (allToJson children)) ++ "\x7d"

/-- Several trees as JSON texts. -/
def allToJson : List Node → List String
  | [] => []
  | n :: rest => n.toJson :: allToJson rest

end

/-! ## Reading -/

/-- One member of a node object. -/
inductive JsonField
  | kind (text : String)
  | payload (text : Option String)
  | children (nodes : List Node)
  | ignored

/-- The node that the members of an object describe: one kind, at most one payload and at most one
list of children. -/
def ofFields (fields : List JsonField) : Option Node :=
  let kinds := fields.filterMap fun | .kind text => some text | _ => none
  let payloads := fields.filterMap fun | .payload text => some text | _ => none
  let lists := fields.filterMap fun | .children nodes => some nodes | _ => none
  match kinds, payloads, lists with
  | [kind], [], [] => some ⟨kind, none, []⟩
  | [kind], [payload], [] => some ⟨kind, payload, []⟩
  | [kind], [], [children] => some ⟨kind, none, children⟩
  | [kind], [payload], [children] => some ⟨kind, payload, children⟩
  | _, _, _ => none

/-- A string or `null`. -/
def payloadJson : Text.Scan (Option String) := fun cs =>
  match Json.skipSpace cs with
  | 'n' :: rest => (Text.after? "ull".toList rest).map (none, ·)
  | cs => (Json.string cs).map fun (text, cs) => (some text, cs)

/-- A list of nodes, each read by `node`. -/
def childrenJson (node : Text.Scan Node) : Text.Scan (List Node) := fun cs =>
  match Json.skipSpace cs with
  | '[' :: rest => Json.list node ']' rest
  | _ => none

/-- The value of a member with the given key. -/
def fieldJson (children : Text.Scan (List Node)) (key : String) : Text.Scan JsonField := fun cs =>
  if key = "kind" then (Json.string cs).map fun (text, cs) => (.kind text, cs)
  else if key = "payload" then (payloadJson cs).map fun (text, cs) => (.payload text, cs)
  else if key = "children" then (children cs).map fun (nodes, cs) => (.children nodes, cs)
  else (Json.skipValue cs).map (.ignored, ·)

/-- A member: a key and its value. -/
def memberJson (children : Text.Scan (List Node)) : Text.Scan JsonField := fun cs => do
  let (key, cs) ← Json.key cs
  fieldJson children key cs

/-- The rest of a node written as an array. -/
def tupleJson (children : Text.Scan (List Node)) : Text.Scan Node := fun cs => do
  let (kind, cs) ← Json.string cs
  match Json.skipSpace cs with
  | ']' :: rest => some (⟨kind, none, []⟩, rest)
  | ',' :: rest => do
    let (payload, cs) ← payloadJson rest
    match Json.skipSpace cs with
    | ']' :: rest => some (⟨kind, payload, []⟩, rest)
    | ',' :: rest => do
      let (nodes, cs) ← children rest
      match Json.skipSpace cs with
      | ']' :: rest => some (⟨kind, payload, nodes⟩, rest)
      | _ => none
    | _ => none
  | _ => none

mutual

/-- A node inside which at most `depth` arrays and objects nest, its own included. -/
def scanJson : Nat → Text.Scan Node
  | 0, _ => none
  | depth + 1, cs =>
    match Json.skipSpace cs with
    | '[' :: rest => tupleJson (scanChildren depth) rest
    | '\x7b' :: rest => do
      let (fields, cs) ← Json.list (memberJson (scanChildren depth)) '\x7d' rest
      (ofFields fields).map (·, cs)
    | _ => none

/-- The children of a node; their list is one level of nesting itself. -/
def scanChildren : Nat → Text.Scan (List Node)
  | 0, _ => none
  | depth + 1, cs => childrenJson (scanJson depth) cs

end

/-- How many arrays and objects may be nested. -/
def maxDepth : Nat := 127

/-- Reads a tree from JSON text that holds nothing else. -/
def ofJson? (text : String) : Option Node := do
  let (node, rest) ← scanJson maxDepth text.toList
  if (Json.skipSpace rest).isEmpty then some node else none

end Rubify.Node
