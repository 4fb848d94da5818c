import Rubify.Ruby.Expr
import Mathlib.Data.List.Basic

/-!
# Spaces between pieces

`join` writes pieces with a running state: whether there is text already, whether the last piece
holds on to the next one, and which piece that was. For pieces that are not empty the state comes to
the two pieces written last. So what stands between two pieces is a matter of those two and the one
in front of them (`separator`), and `join` puts these separators between the pieces (`joinFrom_eq`).

Two words that meet without a space would be read as one. The words of a text are the longest runs
of `isWordChar` in it. They fall apart between two texts unless the one ends and the other begins
with such a character (`wordRuns_append`), and there `join` puts a space.

Headline:
* **`join_spaced`**: the pieces stand in the text as they are, with nothing or one space between
  them; words are kept apart, and so are the two operands of a sign.
-/

namespace Rubify.Ruby

/-! ## The separators -/

/-- What stands between a piece and the next one, where `prev` stands in front of both. -/
def separator (prev : Option String) (piece next : String) : String :=
  if isGlue prev piece || isTight (some piece) next then "" else " "

/-- What stands between pieces that follow `prev`, in order. -/
def separators (prev : Option String) : List String → List String
  | [] => []
  | [_] => []
  | piece :: next :: rest => separator prev piece next :: separators (some piece) (next :: rest)

/-- The pieces in order, each with its separator behind it and the last without one. -/
def interleave (pieces seps : List String) : String :=
  String.join (List.zipWith (· ++ ·) pieces (seps ++ [""]))

theorem interleave_singleton (piece : String) : interleave [piece] [] = piece := by
  simp [interleave]

theorem interleave_cons_cons (piece sep : String) (pieces seps : List String) :
    interleave (piece :: pieces) (sep :: seps) = piece ++ sep ++ interleave pieces seps := by
  simp [interleave]

/-- **Joining puts the separators between the pieces.** The state that is carried along has no say
in more than the space in front of the first piece. -/
theorem joinFrom_eq (started glue : Bool) (prev : Option String) (piece : String)
    {rest : List String} (h : ∀ p ∈ piece :: rest, p ≠ "") :
    joinFrom started glue prev (piece :: rest) =
      (if started && !glue && !isTight prev piece then " " else "") ++
        interleave (piece :: rest) (separators prev (piece :: rest)) := by
  induction rest generalizing started glue prev piece with
  | nil => rw [joinFrom, joinFrom, separators, interleave_singleton, String.append_empty]
  | cons next rest ih =>
    obtain ⟨hpiece, hrest⟩ := List.forall_mem_cons.mp h
    -- behind a piece there is some text, whatever there was in front of it
    have hstarted : (started || decide (piece ≠ "")) = true := by simp [hpiece]
    have hsep : (if true && !isGlue prev piece && !isTight (some piece) next then " " else "") =
        separator prev piece next := by
      rw [separator]
      cases isGlue prev piece <;> cases isTight (some piece) next <;> rfl
    rw [joinFrom, hstarted, ih true (isGlue prev piece) (some piece) next hrest, hsep, separators,
      interleave_cons_cons]
    simp only [String.append_assoc]

theorem length_separators (prev : Option String) (pieces : List String) :
    (separators prev pieces).length = pieces.length - 1 := by
  fun_induction separators prev pieces with
  | case1 => rfl
  | case2 => rfl
  | case3 prev piece next rest ih => rw [List.length_cons, ih]; rfl

theorem separator_cases (prev : Option String) (piece next : String) :
    separator prev piece next = "" ∨ separator prev piece next = " " := by
  rw [separator]
  split
  · exact Or.inl rfl
  · exact Or.inr rfl

theorem mem_separators {prev : Option String} {pieces : List String} {s : String}
    (h : s ∈ separators prev pieces) : s = "" ∨ s = " " := by
  fun_induction separators prev pieces with
  | case1 => cases h
  | case2 => cases h
  | case3 prev piece next rest ih =>
    rcases List.mem_cons.mp h with rfl | h
    · exact separator_cases prev piece next
    · exact ih h

/-- The separator at a position, by the piece there and the pieces around it. -/
theorem getElem?_separators {prev : Option String} {pieces : List String} {i : Nat}
    {piece next : String} (hpiece : pieces[i]? = some piece) (hnext : pieces[i + 1]? = some next) :
    (separators prev pieces)[i]? =
      some (separator (if i = 0 then prev else pieces[i - 1]?) piece next) := by
  fun_induction separators prev pieces generalizing i with
  | case1 => cases hpiece
  | case2 => cases hnext
  | case3 prev p q rest ih =>
    cases i with
    | zero =>
      cases hpiece
      cases hnext
      rfl
    | succ i =>
      rw [List.getElem?_cons_succ, ih hpiece hnext, if_neg (Nat.succ_ne_zero i)]
      cases i <;> rfl

/-! ## Where a space stands -/

/-- Letters, digits, `_`, `$` and quotes: what names and literals begin and end with. -/
def isWordChar (c : Char) : Bool :=
  Text.isAlphanumeric c || ['_', '$', '"', '\''].contains c

/-- Whether a text ends in a word. -/
def endsWord (text : String) : Bool :=
  text.toList.getLast?.any isWordChar

/-- Whether a text begins with a word. -/
def startsWord (text : String) : Bool :=
  text.toList.head?.any isWordChar

/-- A piece that ends an operand does not hold on to the next one. -/
theorem isGlue_of_endsOperand {piece : String} (h : endsOperand piece = true)
    (prev : Option String) : isGlue prev piece = false := by
  have hglue : ∀ p ∈ ["-", "+", ".", "(", "[", "!", "~"], endsOperand p = false := by decide
  have hnot : piece ∉ ["-", "+", ".", "(", "[", "!", "~"] :=
    fun hmem => Bool.false_ne_true ((hglue piece hmem).symm.trans h)
  simp only [List.mem_cons, not_or] at hnot
  simp [isGlue, hnot]

theorem endsOperand_of_endsWord {piece : String} (h : endsWord piece = true) :
    endsOperand piece = true := by
  rw [endsWord] at h
  rw [endsOperand]
  cases hlast : piece.toList.getLast? with
  | none => rw [hlast] at h; cases h
  | some c =>
    rw [hlast] at h
    simp only [Option.any_some, isWordChar, Bool.or_eq_true, List.contains_iff_mem,
      List.mem_cons] at h ⊢
    grind

/-- **Two words have a space between them.** -/
theorem separator_of_words {piece next : String} (prev : Option String)
    (hpiece : endsWord piece = true) (hnext : startsWord next = true) :
    separator prev piece next = " " := by
  have htight : ∀ p ∈ [".", ",", ")", "]", "(", "["], startsWord p = false := by decide
  have hnot : next ∉ [".", ",", ")", "]", "(", "["] :=
    fun hmem => Bool.false_ne_true ((htight next hmem).symm.trans hnext)
  simp only [List.mem_cons, not_or] at hnot
  rw [separator, isGlue_of_endsOperand (endsOperand_of_endsWord hpiece)]
  simp [isTight, hnot]

/-- A sign behind an operand has a space in front of it. -/
theorem separator_before_sign {piece sign : String} (prev : Option String)
    (hsign : sign ∈ ["-", "+"]) (hpiece : endsOperand piece = true) :
    separator prev piece sign = " " := by
  have htight : ∀ s ∈ ["-", "+"], isTight (some piece) s = false := by
    simp [isTight]
  rw [separator, isGlue_of_endsOperand hpiece, htight sign hsign]
  rfl

/-- A sign behind an operand has a space behind it, unless the next piece never has one in front. -/
theorem separator_after_sign {piece sign next : String} (hsign : sign ∈ ["-", "+"])
    (hpiece : endsOperand piece = true) (hnext : next ∉ [".", ",", ")", "]"]) :
    separator (some piece) sign next = " " := by
  have hglue : ∀ s ∈ ["-", "+"], isGlue (some piece) s = false := by
    simp [isGlue, hpiece]
  have hoperand : ∀ s ∈ ["-", "+"], endsOperand s = false := by decide
  rw [separator, hglue sign hsign, isTight, List.contains_eq_mem, decide_eq_false hnext,
    Option.any_some, hoperand sign hsign, Bool.and_false]
  rfl

/-! ## The words of a text -/

/-- The longest runs of word characters, in order. -/
def wordRuns (cs : List Char) : List (List Char) :=
  (cs.splitOnP fun c => !isWordChar c).filter fun run => !run.isEmpty

theorem wordRuns_append_cons {c : Char} (hc : isWordChar c = false) (xs ys : List Char) :
    wordRuns (xs ++ c :: ys) = wordRuns xs ++ wordRuns ys := by
  rw [wordRuns, List.splitOnP_append_cons xs ys (by simp [hc]), List.filter_append, wordRuns,
    wordRuns]

theorem wordRuns_nil : wordRuns [] = [] := by
  simp [wordRuns, List.splitOnP_nil]

/-- The words of two texts are those of the first and those of the second, unless a word ends the
first where another begins the second. -/
theorem wordRuns_append {xs ys : List Char}
    (h : xs.getLast?.any isWordChar = false ∨ ys.head?.any isWordChar = false) :
    wordRuns (xs ++ ys) = wordRuns xs ++ wordRuns ys := by
  rcases h with h | h
  · rcases List.eq_nil_or_concat xs with rfl | ⟨front, c, rfl⟩
    · rw [wordRuns_nil]; rfl
    · have hc : isWordChar c = false := by simpa using h
      rw [List.concat_eq_append, List.append_assoc, List.singleton_append,
        wordRuns_append_cons hc, wordRuns_append_cons hc, wordRuns_nil, List.append_nil]
  · cases ys with
    | nil => rw [wordRuns_nil, List.append_nil, List.append_nil]
    | cons c ys =>
      have hc : isWordChar c = false := h
      have hfront := wordRuns_append_cons hc [] ys
      rw [List.nil_append, wordRuns_nil, List.nil_append] at hfront
      rw [wordRuns_append_cons hc, hfront]

/-- A text begins with its first piece. -/
theorem head?_interleave {piece : String} (hpiece : piece ≠ "") (rest seps : List String) :
    (interleave (piece :: rest) seps).toList.head? = piece.toList.head? := by
  have hsome : piece.toList.head?.isSome = true := by
    rw [List.isSome_head?]
    exact fun hnil => hpiece (String.toList_inj.mp hnil)
  cases seps <;> simp [interleave, Option.or_of_isSome hsome]

theorem wordRuns_interleave (prev : Option String) {pieces : List String}
    (h : ∀ p ∈ pieces, p ≠ "") :
    wordRuns (interleave pieces (separators prev pieces)).toList =
      pieces.flatMap fun p => wordRuns p.toList := by
  fun_induction separators prev pieces with
  | case1 => simp [interleave, wordRuns_nil]
  | case2 => simp [interleave_singleton]
  | case3 prev piece next rest ih =>
    obtain ⟨-, hrest⟩ := List.forall_mem_cons.mp h
    have hnext : next ≠ "" := (List.forall_mem_cons.mp hrest).1
    have hhead := head?_interleave hnext rest (separators (some piece) (next :: rest))
    rw [interleave_cons_cons, List.flatMap_cons, ← ih hrest, String.append_assoc,
      String.toList_append, String.toList_append]
    rcases separator_cases prev piece next with hsep | hsep
    · -- without a space the one does not end in a word or the other does not begin with one
      have hapart : endsWord piece = false ∨ startsWord next = false := by
        by_contra hmeet
        simp only [not_or, Bool.not_eq_false] at hmeet
        rw [separator_of_words prev hmeet.1 hmeet.2] at hsep
        exact absurd hsep (by decide)
      rw [hsep, String.toList_empty, List.nil_append]
      exact wordRuns_append (hapart.imp id fun hstart => by rw [hhead]; exact hstart)
    · rw [hsep]
      exact wordRuns_append_cons (by decide) _ _

/-! ## Joined pieces -/

/-- What may stand between pieces. -/
structure Spaced (pieces seps : List String) : Prop where
  length : seps.length = pieces.length - 1
  blank : ∀ s ∈ seps, s = "" ∨ s = " "
  /-- Where a word ends and another begins there is a space. -/
  words : ∀ {i : Nat} {piece next : String}, pieces[i]? = some piece → pieces[i + 1]? = some next →
    endsWord piece = true → startsWord next = true → seps[i]? = some " "
  /-- In front of a sign that has an operand before it there is a space. -/
  beforeSign : ∀ {i : Nat} {piece sign : String}, pieces[i]? = some piece →
    pieces[i + 1]? = some sign → sign ∈ ["-", "+"] → endsOperand piece = true → seps[i]? = some " "
  /-- Behind such a sign there is one too, unless the next piece stands close to any other. -/
  afterSign : ∀ {i : Nat} {piece sign next : String}, pieces[i]? = some piece →
    pieces[i + 1]? = some sign → pieces[i + 2]? = some next → sign ∈ ["-", "+"] →
    endsOperand piece = true → next ∉ [".", ",", ")", "]"] → seps[i + 1]? = some " "

theorem spaced_separators (pieces : List String) : Spaced pieces (separators none pieces) where
  length := length_separators none pieces
  blank _ hs := mem_separators hs
  words hpiece hnext hends hstarts := by
    rw [getElem?_separators hpiece hnext, separator_of_words _ hends hstarts]
  beforeSign hpiece hnext hsign hends := by
    rw [getElem?_separators hpiece hnext, separator_before_sign _ hsign hends]
  afterSign hpiece hnext hnext' hsign hends hclose := by
    rw [getElem?_separators hnext hnext', if_neg (Nat.succ_ne_zero _), Nat.add_sub_cancel, hpiece,
      separator_after_sign hsign hends hclose]

theorem join_eq_interleave {pieces : List String} (h : ∀ p ∈ pieces, p ≠ "") :
    join pieces = interleave pieces (separators none pieces) := by
  cases pieces with
  | nil => rfl
  | cons piece rest =>
    rw [join, joinFrom_eq false false none piece h]
    exact String.empty_append

/-- **Joining inserts separators and fuses no words.** Pieces that are not empty stand in the joined
text one after the other, with nothing or one space between them. Two words always have the space,
and a sign between its operands has one on both sides. The words of the text are the words of the
pieces. -/
theorem join_spaced {pieces : List String} (h : ∀ p ∈ pieces, p ≠ "") :
    (∃ seps, join pieces = interleave pieces seps ∧ Spaced pieces seps) ∧
      wordRuns (join pieces).toList = pieces.flatMap fun p => wordRuns p.toList := by
  refine ⟨⟨separators none pieces, join_eq_interleave h, spaced_separators pieces⟩, ?_⟩
  rw [join_eq_interleave h]
  exact wordRuns_interleave none h

/-- Words in a row, a sign between operands, and one that belongs to the operand behind it. -/
def signed : List String :=
  ["return", "a", "[", "i", "]", "-", "-", "x1", ".", "y", "+", "(", "!", "$ok", ")"]

theorem join_spaced_signed :
    (∀ p ∈ signed, p ≠ "") ∧ join signed = "return a[i] - -x1.y + (!$ok)" ∧
    (∃ seps, join signed = interleave signed seps ∧ Spaced signed seps) ∧
    wordRuns (join signed).toList = ["return", "a", "i", "x1", "y", "$ok"].map String.toList := by
  have hne : ∀ p ∈ signed, p ≠ "" := by decide
  obtain ⟨hseps, hwords⟩ := join_spaced hne
  exact ⟨hne, by decide, hseps, hwords.trans (by decide)⟩

end Rubify.Ruby
