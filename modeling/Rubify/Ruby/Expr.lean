import Rubify.Java.Type
import Rubify.Syntax.Expr

/-!
# Spelling expressions (§6)

The tokens of a Java expression become pieces of Ruby: `this.x` a variable or a call, `new` a call
of the class, `null` and `System.out` their counterparts; everything else is kept. `join` puts the
pieces together with the spaces of Ruby.
-/

namespace Rubify.Ruby

open Syntax

/-! ## Joining pieces -/

/-- Whether a piece ends an operand: a name, a literal or something in brackets. -/
def endsOperand (piece : String) : Bool :=
  piece.toList.getLast?.any fun c =>
    Text.isAlphanumeric c || ['_', '$', '"', '\'', ')', ']'].contains c

/-- Whether a piece stands close to the one in front of it. -/
def isTight (prev : Option String) (piece : String) : Bool :=
  [".", ",", ")", "]"].contains piece ||
    (["(", "["].contains piece && prev.any endsOperand)

/-- Whether the piece behind stands close: openings, and signs that have no operand before them. -/
def isGlue (prev : Option String) (piece : String) : Bool :=
  (["-", "+"].contains piece && !prev.any endsOperand) ||
    [".", "(", "[", "!", "~"].contains piece

/-- Joins pieces behind `prev`. `started` says that some text stands in front, `glue` that the next
piece follows it without a space. -/
def joinFrom (started glue : Bool) (prev : Option String) : List String → String
  | [] => ""
  | piece :: rest =>
    (if started && !glue && !isTight prev piece then " " else "") ++ piece ++
      joinFrom (started || piece ≠ "") (isGlue prev piece) (some piece) rest

/-- The pieces as one text. -/
def join (pieces : List String) : String :=
  joinFrom false false none pieces

/-! ## What tokens begin with -/

/-- What stands at the front of tokens. -/
inductive Lead
  | word (text : String)
  /-- An object of the class that the names spell. -/
  | object (names : List String)
  /-- An array, by the type of its elements and the tokens of its size. -/
  | array (element : String) (size : List String)

/-- The names of a dotted path at the front of tokens, and what follows. A dot behind the last name
belongs to the path. -/
def leadingPath : List String → List String × List String
  | [] => ([], [])
  | token :: rest =>
    if Text.isName token then
      match rest with
      | "." :: more => (token :: (leadingPath more).1, (leadingPath more).2)
      | _ => ([token], rest)
    else ([], token :: rest)

/-- The tokens up to the bracket that closes the one just opened, and those behind it; `depth`
further brackets are open. -/
def splitBracket (depth : Nat) : List String → Option (List String × List String)
  | [] => none
  | token :: rest =>
    if token = "]" ∧ depth = 0 then some ([], rest)
    else
      let depth := if token = "[" then depth + 1 else if token = "]" then depth - 1 else depth
      (splitBracket depth rest).map fun (inner, rest) => (token :: inner, rest)

/-- What is created behind `new`, and the tokens from the argument list on or behind the size. -/
def creation? (tokens : List String) : Option (Lead × List String) :=
  match leadingPath tokens with
  | (names, "(" :: rest) => if names.isEmpty then none else some (.object names, "(" :: rest)
  | ([element], "[" :: rest) =>
    match splitBracket 0 rest with
    | some (size, rest) => if size.isEmpty then none else some (.array element size, rest)
    | none => none
  | _ => none

/-- What a token and those behind it begin with, and the tokens that are left. -/
def lead (token : String) (rest : List String) : Lead × List String :=
  match token, rest with
  | "this", "." :: name :: more =>
    if Text.isName name then
      (.word (if more.head? = some "(" then name else "@" ++ name), more)
    else (.word "self", rest)
  | "System", "." :: "out" :: "." :: "println" :: more => (.word "puts", more)
  | "System", "." :: "out" :: "." :: "print" :: more => (.word "print", more)
  | "this", _ => (.word "self", rest)
  | "null", _ => (.word "nil", rest)
  | "new", _ => (creation? rest).getD (.word "new", rest)
  | _, _ => (.word token, rest)

theorem leadingPath_suffix (tokens : List String) : (leadingPath tokens).2 <:+ tokens := by
  fun_induction leadingPath tokens with
  | case1 => exact List.suffix_refl _
  | case2 token h more ih => exact (ih.trans (List.suffix_cons _ _)).trans (List.suffix_cons _ _)
  | case3 token rest h hne => exact List.suffix_cons _ _
  | case4 token rest h => exact List.suffix_refl _

theorem splitBracket_eq_some {depth : Nat} {tokens inner rest : List String}
    (h : splitBracket depth tokens = some (inner, rest)) : tokens = inner ++ "]" :: rest := by
  induction tokens generalizing depth inner with
  | nil => cases h
  | cons token more ih =>
    rw [splitBracket] at h
    split at h
    · rename_i hclose
      cases h
      rw [hclose.1, List.nil_append]
    · obtain ⟨⟨inner', rest'⟩, hm, he⟩ := Option.map_eq_some_iff.1 h
      cases he
      rw [ih hm, List.cons_append]

/-- Where the tokens of a front and those that are left come from. -/
structure Lead.From (tokens : List String) (front : Lead × List String) : Prop where
  behind : front.2 <:+ tokens
  /-- The size of an array stands in brackets before what is left. -/
  size : ∀ element size, front.1 = .array element size → size ++ "]" :: front.2 <:+ tokens

theorem Lead.From.word {tokens more : List String} (h : more <:+ tokens) (text : String) :
    From tokens (.word text, more) :=
  ⟨h, fun _ _ harray => by cases harray⟩

theorem creation?_from {tokens : List String} {front : Lead × List String}
    (h : creation? tokens = some front) : Lead.From tokens front := by
  have hsuffix := leadingPath_suffix tokens
  unfold creation? at h
  split at h
  · rename_i heq
    rw [heq] at hsuffix
    split at h
    · cases h
    · cases h
      exact ⟨hsuffix, fun _ _ harray => by cases harray⟩
  · rename_i heq
    rw [heq] at hsuffix
    split at h
    · rename_i hsplit
      split at h
      · cases h
      · cases h
        rw [splitBracket_eq_some hsplit] at hsuffix
        have hsize := (List.suffix_cons _ _).trans hsuffix
        refine ⟨((List.suffix_cons _ _).trans (List.suffix_append _ _)).trans hsize, ?_⟩
        rintro _ _ ⟨⟩
        exact hsize
    · cases h
  · cases h

/-- **What is left is behind the front**, and the size of an array between brackets before it. -/
theorem lead_from (token : String) (rest : List String) : Lead.From rest (lead token rest) := by
  unfold lead
  split
  · split
    · exact .word ((List.suffix_cons _ _).trans (List.suffix_cons _ _)) _
    · exact .word (List.suffix_refl _) _
  · exact .word (List.suffix_append [".", "out", ".", "println"] _) _
  · exact .word (List.suffix_append [".", "out", ".", "print"] _) _
  · exact .word (List.suffix_refl _) _
  · exact .word (List.suffix_refl _) _
  · cases h : creation? rest with
    | none => exact .word (List.suffix_refl _) _
    | some front => exact creation?_from h
  · exact .word (List.suffix_refl _) _

theorem length_lead_le (token : String) (rest : List String) :
    (lead token rest).2.length ≤ rest.length :=
  (lead_from token rest).behind.length_le

theorem length_size_lt {token element : String} {rest size : List String}
    (h : (lead token rest).1 = .array element size) : size.length < rest.length := by
  have hle := ((lead_from token rest).size element size h).length_le
  rw [List.length_append, List.length_cons] at hle
  omega

/-! ## Spelling tokens -/

/-- The constant path of a class that is created; `locals` knows the types of the body. -/
def classReference (locals : String → Option (List String)) (names : List String) : String :=
  let dotted := (ClassName.ofDotted (".".intercalate names)).reference
  match names with
  | [name] =>
    match locals name with
    | some path => "::".intercalate path
    | none => dotted
  | _ => dotted

/-- The value that fills a new array. -/
def elementDefault (element : String) : String :=
  ((Primitive.ofKeyword? element).map Primitive.defaultValue).getD "nil"

/-- What is written behind something incremented. -/
def stepText (op : String) : String :=
  if op = "++" then " += 1" else " -= 1"

mutual

/-- The text that tokens are written as; an increment as a whole becomes an assignment. Fails on any
other increment, with the construct to report. -/
def render (locals : String → Option (List String)) (tokens : List String) :
    Except String String :=
  match _h : splitStep? tokens with
  | some (op, target) => return (← render locals target) ++ stepText op
  | none =>
    match tokens.find? isStep with
    | some op => throw (innerStepText op tokens)
    | none => return join (← pieces locals tokens)
termination_by 2 * tokens.length + 1
decreasing_by
  · have := splitStep?_length _h
    omega
  · omega

/-- The pieces of Ruby that tokens stand for. The size of an array is an expression of its own. -/
def pieces (locals : String → Option (List String)) (tokens : List String) :
    Except String (List String) :=
  match tokens with
  | [] => return []
  | token :: rest =>
    match _h : (lead token rest).1 with
    | .word text => return text :: (← pieces locals (lead token rest).2)
    | .object names =>
      return (classReference locals names ++ ".new") :: (← pieces locals (lead token rest).2)
    | .array element size => do
      let size ← render locals size
      return ("Array.new(" ++ size ++ ", " ++ elementDefault element ++ ")") ::
        (← pieces locals (lead token rest).2)
termination_by 2 * tokens.length
decreasing_by
  all_goals rw [List.length_cons]
  all_goals have := length_lead_le token rest
  all_goals grind [→ length_size_lt]

end

/-! ## Tokens that can be written -/

section

variable {locals : String → Option (List String)} {tokens : List String}

/-- Tokens without increments are written by their pieces. -/
theorem render_of_not_isStep (h : ∀ token ∈ tokens, isStep token = false) :
    render locals tokens = join <$> pieces locals tokens := by
  have hfind : tokens.find? isStep = none :=
    List.find?_eq_none.mpr fun token htoken => Bool.eq_false_iff.mp (h token htoken)
  rw [render]
  split
  · rename_i hsplit
    rw [splitStep?_eq_none h] at hsplit
    cases hsplit
  · rw [hfind, map_eq_pure_bind]

/-- **No call inside another fails.** Tokens without increments have pieces: what is behind the front,
and what is between the brackets of a size, holds no increment either. -/
theorem exists_pieces (locals : String → Option (List String)) (tokens : List String)
    (h : ∀ token ∈ tokens, isStep token = false) : ∃ ps, pieces locals tokens = .ok ps := by
  cases tokens with
  | nil => exact ⟨[], by rw [pieces]; rfl⟩
  | cons token rest =>
    have hlength := length_lead_le token rest
    obtain ⟨ps, hps⟩ := exists_pieces locals (lead token rest).2 fun t ht =>
      h t (List.mem_cons_of_mem token ((lead_from token rest).behind.subset ht))
    rw [pieces, hps]
    split
    · exact ⟨_, rfl⟩
    · exact ⟨_, rfl⟩
    · rename_i element size hlead
      have hsize : ∀ t ∈ size, isStep t = false := fun t ht =>
        h t (List.mem_cons_of_mem token
          (((lead_from token rest).size element size hlead).subset (List.mem_append_left _ ht)))
      have hlt := length_size_lt hlead
      obtain ⟨sizes, hsizes⟩ := exists_pieces locals size hsize
      rw [render_of_not_isStep hsize, hsizes]
      exact ⟨_, rfl⟩
termination_by tokens.length
decreasing_by
  all_goals grind

/-- **Tokens are written if their increments are whole**, in every body. -/
theorem exists_render (locals : String → Option (List String)) {tokens : List String}
    (h : innerStep? tokens = none) : ∃ text, render locals tokens = .ok text := by
  unfold innerStep? at h
  rw [render]
  split
  · rename_i op target hsplit
    have htarget := not_isStep_of_scanPath (splitStep?_eq_some hsplit).2.1
    obtain ⟨ps, hps⟩ := exists_pieces locals target htarget
    rw [render_of_not_isStep htarget, hps]
    exact ⟨_, rfl⟩
  · rename_i hsplit
    rw [hsplit, Option.isSome_none, if_neg Bool.false_ne_true] at h
    have hnone : ∀ token ∈ tokens, isStep token = false := fun token htoken =>
      Bool.eq_false_iff.mpr (List.find?_eq_none.mp h token htoken)
    obtain ⟨ps, hps⟩ := exists_pieces locals tokens hnone
    rw [h, hps]
    exact ⟨_, rfl⟩

/-- Tokens with an increment inside are refused for it. -/
theorem render_of_innerStep? {op : String} (h : innerStep? tokens = some op) :
    render locals tokens = .error (innerStepText op tokens) := by
  unfold innerStep? at h
  split at h
  · cases h
  · rename_i hsplit
    rw [Bool.not_eq_true, Option.isSome_eq_false_iff, Option.isNone_iff_eq_none] at hsplit
    rw [render]
    split
    · rename_i heq
      rw [hsplit] at heq
      cases heq
    · rw [h]
      rfl

end

theorem isSome_render (locals : String → Option (List String)) {tokens : List String}
    (h : innerStep? tokens = none) : (render locals tokens).toOption.isSome = true := by
  obtain ⟨text, htext⟩ := exists_render locals h
  rw [htext]
  rfl

/-- The text of an expression. -/
def exprText (locals : String → Option (List String)) : Expr → String
  | .whole tokens h => (render locals tokens).toOption.get (isSome_render locals h)
  | .bare tokens => " ".intercalate tokens

theorem render_eq_exprText (locals : String → Option (List String)) {tokens : List String}
    (h : innerStep? tokens = none) :
    render locals tokens = .ok (exprText locals (.whole tokens h)) := by
  obtain ⟨text, htext⟩ := exists_render locals h
  simp only [exprText, htext]
  rfl

/-- An argument list. Without arguments the parentheses are written only if `explicit`. -/
def argumentsText (arguments : List String) (explicit : Bool) : String :=
  if arguments.isEmpty && !explicit then "" else "(" ++ ", ".intercalate arguments ++ ")"

end Rubify.Ruby
