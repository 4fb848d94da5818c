import Rubify.Proofs.Json.Scan
import Rubify.Tree.Json

/-!
# Trees survive being written as JSON

A node that is written takes one level of nesting, and one more for the list of its children if it
has any, so a tree whose longest path has `h` nodes nests `2 * h - 1` deep. Reading allows `maxDepth`
levels, an odd number: trees of up to `(maxDepth + 1) / 2` levels are read back as they were, and
higher ones are refused.

Headline:
* **`ofJson_toJson_iff`**: a written tree is read back iff its longest path has at most 64 nodes, and is
  refused otherwise.
-/

namespace Rubify.Node

open Json (Reads)

/-! ## Height -/

mutual

/-- The number of nodes on the longest path from the root to a leaf. -/
def height : Node → Nat
  | ⟨_, _, children⟩ => heightAll children + 1

/-- The number of nodes on the longest such path in several trees. -/
def heightAll : List Node → Nat
  | [] => 0
  | n :: rest => max n.height (heightAll rest)

end

theorem height_pos (n : Node) : 0 < n.height := by
  obtain ⟨_, _, children⟩ := n
  rw [height]
  exact Nat.succ_pos _

theorem heightAll_pos (n : Node) (rest : List Node) : 0 < heightAll (n :: rest) := by
  rw [heightAll]
  exact Nat.lt_of_lt_of_le n.height_pos (Nat.le_max_left _ _)

/-- The node, if its levels fit into the depth that is left. -/
def fitting (depth : Nat) (n : Node) : Option Node :=
  if 2 * n.height ≤ depth + 1 then some n else none

/-- The nodes, if the levels of each of them fit. -/
theorem mapM_fitting (depth : Nat) (ns : List Node) : ns.mapM (fitting depth) =
    if 2 * heightAll ns ≤ depth + 1 then some ns else none := by
  induction ns with
  | nil => simp [heightAll]
  | cons n rest ih =>
    rw [List.mapM_cons, ih, fitting, heightAll]
    by_cases hn : 2 * n.height ≤ depth + 1
    · by_cases hr : 2 * heightAll rest ≤ depth + 1
      · have : 2 * max n.height (heightAll rest) ≤ depth + 1 := by omega
        simp [hn, hr, this]
      · have : ¬ 2 * max n.height (heightAll rest) ≤ depth + 1 := by omega
        simp [hn, hr, this]
    · have : ¬ 2 * max n.height (heightAll rest) ≤ depth + 1 := by omega
      simp [hn, this]

/-! ## The parts of an object -/

/-- A part of a written node. -/
inductive Part
  | kind (text : String)
  | payload (text : String)
  | children (first : Node) (rest : List Node)

/-- The parts that are written of a node. -/
def parts : Node → List Part
  | ⟨kind, payload, children⟩ => .kind kind :: (payload.toList.map .payload ++
      match children with
      | [] => []
      | first :: rest => [.children first rest])

/-- The list of children as it is written. -/
def childrenText (first : Node) (rest : List Node) : List Char :=
  '[' :: ([','].intercalate ((first :: rest).map fun n => n.toJson.toList) ++ [']'])

/-- The key of a part. -/
def Part.key : Part → String
  | .kind _ => "kind"
  | .payload _ => "payload"
  | .children _ _ => "children"

/-- The value of a part as it is written. -/
def Part.valueText : Part → List Char
  | .kind text | .payload text => (Json.write text).toList
  | .children first rest => childrenText first rest

/-- A part as it is written. -/
def Part.text (p : Part) : List Char :=
  (Json.write p.key).toList ++ [':'] ++ p.valueText

/-- What a part reads as, where the levels below the node may nest `depth` deep. -/
def Part.field (depth : Nat) : Part → Option JsonField
  | .kind text => some (.kind text)
  | .payload text => some (.payload (some text))
  | .children first rest =>
    if 2 * heightAll (first :: rest) ≤ depth then some (.children (first :: rest)) else none

theorem allToJson_eq (ns : List Node) : allToJson ns = ns.map toJson := by
  induction ns with
  | nil => rfl
  | cons n rest ih => rw [allToJson, ih, List.map_cons]

theorem toList_jsonFields (kind : String) (payload : Option String) (children : List Node) :
    (jsonFields kind payload (allToJson children)).map String.toList =
      (parts ⟨kind, payload, children⟩).map Part.text := by
  have hkind : (Json.write "kind").toList ++ [':'] = "\"kind\":".toList := by decide
  have hpayload : (Json.write "payload").toList ++ [':'] = "\"payload\":".toList := by decide
  have hchildren : (Json.write "children").toList ++ [':', '['] = "\"children\":[".toList := by
    decide
  rw [allToJson_eq]
  cases payload <;> cases children <;>
    simp [jsonFields, parts, Part.text, Part.key, Part.valueText, childrenText, ← hkind,
      ← hpayload, ← hchildren, String.toList_intercalate, Function.comp_def]

/-- A node is written as its parts between braces. -/
theorem toList_toJson (n : Node) : n.toJson.toList =
    '\x7b' :: ([','].intercalate ((parts n).map Part.text) ++ ['\x7d']) := by
  obtain ⟨kind, payload, children⟩ := n
  simp [toJson, String.toList_intercalate, toList_jsonFields]

/-- The fields that the parts of a node read as describe the node. -/
theorem bind_ofFields_parts (depth : Nat) (n : Node) :
    ((parts n).mapM (Part.field depth)).bind ofFields = fitting (depth + 1) n := by
  obtain ⟨kind, payload, children⟩ := n
  cases children with
  | nil =>
    have hfits : fitting (depth + 1) ⟨kind, payload, []⟩ = some ⟨kind, payload, []⟩ := by
      rw [fitting, if_pos (by simp only [height, heightAll]; omega)]
    rw [hfits]
    cases payload <;> simp [parts, Part.field, ofFields]
  | cons first rest =>
    rw [fitting, height]
    by_cases h : 2 * heightAll (first :: rest) ≤ depth
    · rw [if_pos (by omega)]
      cases payload <;> simp [parts, Part.field, ofFields, h]
    · rw [if_neg (by omega)]
      cases payload <;> simp [parts, Part.field, h]

/-! ## Reading parts and nodes -/

theorem reads_payload (text : String) :
    Reads payloadJson (Json.write text).toList (some (some text)) := by
  intro rest
  have hstring := Json.reads_string text rest
  rw [Json.toList_write] at hstring ⊢
  rw [payloadJson, List.cons_append, Json.skipSpace_cons (by decide)]
  rw [List.cons_append] at hstring
  exact congrArg (Option.map fun x => (some x.1, x.2)) hstring

/-- Children read as a list, if each of them does. -/
theorem reads_childrenJson {depth : Nat} {first : Node} {rest : List Node}
    (h : ∀ n ∈ first :: rest, Reads (scanJson depth) n.toJson.toList (fitting depth n)) :
    Reads (childrenJson (scanJson depth)) (childrenText first rest)
      (if 2 * heightAll (first :: rest) ≤ depth + 1 then some (first :: rest) else none) := by
  intro more
  rw [childrenText, List.cons_append, childrenJson, Json.skipSpace_cons (by decide),
    ← mapM_fitting]
  exact Json.reads_list ']' (fun n : Node => n.toJson.toList) (by decide) (by decide) (by decide)
    (by decide) (toList_toJson first) h more

theorem reads_scanChildren (depth : Nat) {first : Node} {rest : List Node}
    (h : ∀ n ∈ first :: rest, ∀ d, Reads (scanJson d) n.toJson.toList (fitting d n)) :
    Reads (scanChildren depth) (childrenText first rest)
      (if 2 * heightAll (first :: rest) ≤ depth then some (first :: rest) else none) := by
  have hpos := heightAll_pos first rest
  intro more
  cases depth with
  | zero =>
    rw [scanChildren, if_neg (by omega)]
    rfl
  | succ d =>
    rw [scanChildren]
    exact reads_childrenJson (fun n hn => h n hn d) more

/-- The member of an object reads as its part. -/
theorem reads_memberJson {depth : Nat} {p : Part}
    (h : ∀ first rest, p = .children first rest → ∀ n ∈ first :: rest,
      ∀ d, Reads (scanJson d) n.toJson.toList (fitting d n)) :
    Reads (memberJson (scanChildren depth)) p.text (p.field depth) := by
  intro more
  have hkey := Json.reads_key p.key (p.valueText ++ more)
  rw [← List.append_assoc] at hkey
  rw [memberJson, Part.text, hkey]
  simp only [Option.map_some, Option.bind_eq_bind, Option.bind_some]
  cases p with
  | kind text =>
    simp [fieldJson, Part.key, Part.valueText, Part.field, Json.reads_string text more]
  | payload text =>
    simp [fieldJson, Part.key, Part.valueText, Part.field, reads_payload text more]
  | children first rest =>
    have hread := reads_scanChildren depth (h first rest rfl) more
    simp only [fieldJson, Part.key, Part.valueText, Part.field, hread]
    by_cases hh : 2 * heightAll (first :: rest) ≤ depth <;> simp [hh]

-- A node is read through the list of its parts, which holds the children, so nodes and lists of
-- nodes go together.
mutual

/-- **A written node is read back where its levels fit, and refused where they do not.** -/
theorem reads_scanJson : ∀ (n : Node) (depth : Nat),
    Reads (scanJson depth) n.toJson.toList (fitting depth n)
  | n, 0 => fun rest => by
    have := n.height_pos
    rw [scanJson, fitting, if_neg (by omega)]
    rfl
  | ⟨kind, payload, children⟩, depth + 1 => fun rest => by
    have hparts : ∀ p ∈ parts ⟨kind, payload, children⟩,
        Reads (memberJson (scanChildren depth)) p.text (p.field depth) := by
      intro p hp
      refine reads_memberJson fun first rest heq n hn d => reads_scanJson_all children n ?_ d
      subst heq
      cases payload <;> cases children <;> simp_all [parts]
    obtain ⟨p, ps, hps⟩ : ∃ p ps, parts ⟨kind, payload, children⟩ = p :: ps := ⟨_, _, rfl⟩
    obtain ⟨cs, hcs⟩ : ∃ cs, p.text = '"' :: cs := ⟨_, by rw [Part.text, Json.toList_write]; rfl⟩
    rw [hps] at hparts
    have hlist := Json.reads_list '\x7d' Part.text (by decide) (by decide) (by decide) (by decide)
      hcs hparts rest
    rw [← bind_ofFields_parts, toList_toJson, List.cons_append, scanJson,
      Json.skipSpace_cons (by decide), hps]
    simp only [hlist]
    cases List.mapM (Part.field depth) (p :: ps) <;> rfl

theorem reads_scanJson_all : ∀ (ns : List Node), ∀ n ∈ ns, ∀ depth,
    Reads (scanJson depth) n.toJson.toList (fitting depth n)
  | m :: rest, n, hn, depth => by
    rcases List.mem_cons.mp hn with h | hn
    · rw [h]
      exact reads_scanJson m depth
    · exact reads_scanJson_all rest n hn depth

end

/-- **A written tree is read back iff its longest path has at most 64 nodes**, and is refused
otherwise. -/
theorem ofJson_toJson_iff (t : Node) :
    (ofJson? t.toJson = some t ↔ t.height ≤ 64) ∧ (64 < t.height → ofJson? t.toJson = none) := by
  have hread := reads_scanJson t maxDepth []
  rw [List.append_nil] at hread
  by_cases h : t.height ≤ 64
  · have hfit : fitting maxDepth t = some t := if_pos (by rw [maxDepth]; omega)
    have hok : ofJson? t.toJson = some t := by
      rw [ofJson?, hread, hfit]
      rfl
    exact ⟨iff_of_true hok h, fun hdeep => absurd h (Nat.not_le_of_lt hdeep)⟩
  · have hfit : fitting maxDepth t = none := if_neg (by rw [maxDepth]; omega)
    have hnone : ofJson? t.toJson = none := by
      rw [ofJson?, hread, hfit]
      rfl
    refine ⟨iff_of_false ?_ h, fun _ => hnone⟩
    rw [hnone]
    exact nofun

end Rubify.Node
