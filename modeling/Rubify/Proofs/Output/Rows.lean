import Rubify.Output.Layout
import Mathlib.Data.List.Infix
import Mathlib.Data.List.TakeWhile

/-!
# The rows of what is written

What a layout writes is a list of rows, each with the level that it stands at (`Layout.rowsAll`). The
width of an indentation plays no part in that list: a row that shows something is written as the blanks
of its level and its text, any other one as nothing (`writeRows`). Whether a gap adds a row depends on
the rows in front of it only.

Lines that take the way through a buffer are written at level zero and indented once more when they are
spliced in. Their rows are those of the same lines written one after another, at the sum of both levels.

The rows are found again in the text, up to the blanks in front of them (`Text.rows`). Among them are
the texts of the layout, in order, each as a block of rows.

Headlines:
* **`Layout.writeAll_showing`**: writing layouts writes their rows.
* **`Layout.rows_writeAll`**: the texts of a layout are written whole, each as rows of its own.
-/

namespace Rubify

namespace Text

/-- A row without the blanks in front of it. -/
def bare (row : List Char) : List Char :=
  row.dropWhile whitespace.contains

/-- The rows of a text without the blanks in front of them. -/
def rows (text : String) : List (List Char) :=
  (pieces text.toList).map fun piece => bare piece.1

/-- The text of a line that shows something, else nothing. -/
def shownText (line : String) : String :=
  if isBlank line then "" else line

/-- The lines that a text is written as; the empty text is one empty line. -/
def shownLines (text : String) : List String :=
  if text = "" then [""] else (lines text).map shownText

/-- The rows that a text is written as. -/
def lineRows (text : String) : List (List Char) :=
  (shownLines text).map fun line => bare line.toList

/-! ## Cutting a text -/

theorem pieces_row {row : List Char} (h : '\n' ∉ row) (rest : List Char) :
    pieces (row ++ '\n' :: rest) = (row, true) :: pieces rest := by
  induction row with
  | nil => rw [List.nil_append, pieces, if_pos rfl]
  | cons c row ih =>
    obtain ⟨hc, hrow⟩ := not_or.mp (mt List.mem_cons.mpr h)
    rw [List.cons_append, pieces, if_neg (Ne.symm hc), ih hrow]

theorem not_mem_of_mem_pieces : ∀ {cs : List Char} {piece : List Char × Bool},
    piece ∈ pieces cs → '\n' ∉ piece.1
  | c :: rest, piece, h => by
    rw [pieces] at h
    split at h
    · rcases List.mem_cons.mp h with rfl | h
      · exact List.not_mem_nil
      · exact not_mem_of_mem_pieces h
    · rename_i hc
      split at h
      · obtain rfl := List.mem_singleton.mp h
        exact fun hn => hc (List.mem_singleton.mp hn).symm
      · rename_i line ended more hp
        have hin : ∀ p ∈ (line, ended) :: more, '\n' ∉ p.1 := fun p hmem =>
          not_mem_of_mem_pieces (hp ▸ hmem)
        obtain ⟨hline, hmore⟩ := List.forall_mem_cons.mp hin
        rcases List.mem_cons.mp h with rfl | h
        · exact mt List.mem_cons.mp (not_or.mpr ⟨Ne.symm hc, hline⟩)
        · exact hmore piece h

/-- A line of a text has no line feed. -/
theorem not_mem_of_mem_lines {text row : String} (h : row ∈ lines text) : '\n' ∉ row.toList := by
  obtain ⟨⟨line, ended⟩, hp, rfl⟩ := List.mem_map.mp h
  have hno := not_mem_of_mem_pieces hp
  rw [String.toList_ofList]
  cases ended with
  | false => exact hno
  | true =>
    rw [lineOf, dropReturn]
    split
    · exact fun hn => hno (List.mem_of_mem_dropLast hn)
    · exact hno

/-- Nothing that is written as one line of a text has a line feed. -/
theorem not_mem_of_mem_shownLines {text line : String} (h : line ∈ shownLines text) :
    '\n' ∉ line.toList := by
  unfold shownLines at h
  split at h
  · rw [List.mem_singleton.mp h]
    exact List.not_mem_nil
  · obtain ⟨row, hrow, rfl⟩ := List.mem_map.mp h
    unfold shownText
    split
    · exact List.not_mem_nil
    · exact not_mem_of_mem_lines hrow

theorem eq_empty_of_mem_shownLines {text line : String} (h : line ∈ shownLines text)
    (hblank : isBlank line = true) : line = "" := by
  unfold shownLines at h
  split at h
  · exact List.mem_singleton.mp h
  · obtain ⟨row, -, rfl⟩ := List.mem_map.mp h
    unfold shownText at hblank ⊢
    split
    · rfl
    · rename_i hrow
      rw [if_neg hrow] at hblank
      exact absurd hblank hrow

theorem contains_space : whitespace.contains ' ' = true := by decide

theorem bare_spaces (n : Nat) (row : List Char) :
    bare (List.replicate n ' ' ++ row) = bare row :=
  List.dropWhile_append_of_pos fun _ hc => (List.eq_of_mem_replicate hc).symm ▸ contains_space

end Text

/-! ## Rows with levels -/

/-- A row: its level, its text without indentation, and whether it belongs to a comment. -/
structure Row where
  level : Nat
  text : String
  comment : Bool
  deriving DecidableEq, Repr

namespace Row

/-- The text of the row is one line, and is empty if it shows nothing. -/
structure Proper (r : Row) : Prop where
  line : '\n' ∉ r.text.toList
  shown : Text.isBlank r.text = true → r.text = ""

/-- The row with its indentation; an empty row has none. -/
def shown (width : Nat) (r : Row) : String :=
  if r.text = "" then "" else String.ofList (List.replicate (r.level * width) ' ') ++ r.text

/-- The row some levels deeper. -/
def deepen (levels : Nat) (r : Row) : Row :=
  { r with level := levels + r.level }

end Row

/-- Rows as text, with `width` blanks for each level. -/
def writeRows (width : Nat) : List Row → String
  | [] => ""
  | r :: rest => r.shown width ++ "\n" ++ writeRows width rest

/-- The rows of a text at a level. -/
def textRows (level : Nat) (comment : Bool) (text : String) : List Row :=
  (Text.shownLines text).map fun line => ⟨level, line, comment⟩

/-- Whether rows end with an empty one that is not the only one. -/
def endsBlank (rows : List Row) : Bool :=
  rows.getLast?.any (·.text = "") && !rows.dropLast.isEmpty

namespace Layout

mutual

/-- The rows written so far, followed by those of a layout. -/
def rows (level : Nat) (before : List Row) : Layout → List Row
  | .line text => before ++ textRows level false text
  | .comment text => before ++ textRows level true text
  | .gap => if before.isEmpty || endsBlank before then before else before ++ [⟨level, "", false⟩]
  | .indented body => rowsAll (level + 1) before body
  -- gaps in a buffer look at the rows of the buffer only
  | .spliced body => before ++ rowsAll level [] body

/-- The rows written so far, followed by those of layouts. -/
def rowsAll (level : Nat) (before : List Row) : List Layout → List Row
  | [] => before
  | l :: rest => rowsAll level (l.rows level before) rest

end

end Layout

/-! ## Proper rows -/

section

variable {width level : Nat} {comment : Bool} {text : String} {r : Row}

theorem proper_empty (level : Nat) (comment : Bool) : Row.Proper ⟨level, "", comment⟩ :=
  ⟨List.not_mem_nil, fun _ => rfl⟩

theorem mem_textRows (h : r ∈ textRows level comment text) :
    r.level = level ∧ r.comment = comment := by
  obtain ⟨line, -, rfl⟩ := List.mem_map.mp h
  exact ⟨rfl, rfl⟩

theorem proper_textRows (h : r ∈ textRows level comment text) : r.Proper := by
  obtain ⟨line, hline, rfl⟩ := List.mem_map.mp h
  exact ⟨Text.not_mem_of_mem_shownLines hline, Text.eq_empty_of_mem_shownLines hline⟩

mutual

theorem Layout.proper_rows : ∀ (l : Layout) {level : Nat} {before : List Row},
    (∀ r ∈ before, r.Proper) → ∀ r ∈ l.rows level before, r.Proper
  | .line text, level, before, h | .comment text, level, before, h => by
    rw [rows]
    exact List.forall_mem_append.mpr ⟨h, fun _ => proper_textRows⟩
  | .gap, level, before, h => by
    rw [rows]
    split
    · exact h
    · exact List.forall_mem_append.mpr ⟨h, List.forall_mem_singleton.mpr (proper_empty level false)⟩
  | .indented body, level, before, h => by
    rw [rows]
    exact proper_rowsAll body h
  | .spliced body, level, before, h => by
    rw [rows]
    exact List.forall_mem_append.mpr ⟨h, proper_rowsAll body (List.forall_mem_nil _)⟩

theorem Layout.proper_rowsAll : ∀ (ls : List Layout) {level : Nat} {before : List Row},
    (∀ r ∈ before, r.Proper) → ∀ r ∈ rowsAll level before ls, r.Proper
  | [], level, before, h => by
    rw [rowsAll]
    exact h
  | l :: rest, level, before, h => by
    rw [rowsAll]
    exact proper_rowsAll rest (proper_rows l h)

end

theorem writeRows_append (width : Nat) (xs ys : List Row) :
    writeRows width (xs ++ ys) = writeRows width xs ++ writeRows width ys := by
  induction xs with
  | nil => simp [writeRows]
  | cons r xs ih => rw [List.cons_append, writeRows, writeRows, ih, ← String.append_assoc]

theorem writeRows_singleton (width : Nat) (r : Row) :
    writeRows width [r] = r.shown width ++ "\n" := by
  simp [writeRows]

theorem getLast?_writeRows (width : Nat) (rows : List Row) :
    (writeRows width rows).toList.getLast? = if rows = [] then none else some '\n' := by
  rcases rows.eq_nil_or_concat with rfl | ⟨init, r, rfl⟩
  · rfl
  · simp [writeRows_append, writeRows_singleton]

/-- A row that shows something does not end in a line feed. -/
theorem getLast?_shown (width : Nat) (h : r.Proper) (hne : r.text ≠ "") :
    ∃ c, c ≠ '\n' ∧ (r.shown width).toList.getLast? = some c := by
  have hlist : r.text.toList ≠ [] := fun hnil => hne (String.toList_inj.mp hnil)
  refine ⟨r.text.toList.getLast hlist, fun hc => h.line (hc ▸ List.getLast_mem hlist), ?_⟩
  rw [Row.shown, if_neg hne, String.toList_append, List.getLast?_append_of_ne_nil _ hlist,
    List.getLast?_eq_getLast_of_ne_nil hlist]

theorem not_mem_shown (h : r.Proper) : '\n' ∉ (r.shown width).toList := by
  unfold Row.shown
  split
  · exact List.not_mem_nil
  · rw [String.toList_append, String.toList_ofList, List.mem_append]
    rintro (hin | hin)
    · exact absurd (List.eq_of_mem_replicate hin) (by decide)
    · exact h.line hin

/-- The blanks in front do not make a row show anything. -/
theorem isBlank_shown (h : r.Proper) : Text.isBlank (r.shown width) = decide (r.text = "") := by
  unfold Row.shown
  by_cases hne : r.text = ""
  · simp [hne, Text.isBlank]
  · have hblank : Text.isBlank r.text = false := by
      simpa using mt h.shown hne
    rw [Text.isBlank] at hblank
    rw [if_neg hne, Text.isBlank, String.toList_append, List.all_append, hblank, Bool.and_false]
    exact (decide_eq_false hne).symm

/-- The rows are found again in the text that they are written as. -/
theorem pieces_writeRows (width : Nat) : ∀ {rows : List Row}, (∀ r ∈ rows, r.Proper) →
    Text.pieces (writeRows width rows).toList = rows.map fun r => ((r.shown width).toList, true)
  | [], _ => rfl
  | r :: rest, h => by
    obtain ⟨hr, hrest⟩ := List.forall_mem_cons.mp h
    have hlist : (writeRows width (r :: rest)).toList =
        (r.shown width).toList ++ '\n' :: (writeRows width rest).toList := by
      simp [writeRows]
    rw [hlist, Text.pieces_row (not_mem_shown hr), pieces_writeRows width hrest, List.map_cons]

end

/-! ## Deeper rows -/

section

theorem endsBlank_deepen (k : Nat) (rows : List Row) :
    endsBlank (rows.map (Row.deepen k)) = endsBlank rows := by
  unfold endsBlank
  rw [List.getLast?_map, ← List.map_dropLast, List.isEmpty_map, Option.any_map]
  rfl

theorem textRows_deepen (k level : Nat) (comment : Bool) (text : String) :
    textRows (k + level) comment text = (textRows level comment text).map (Row.deepen k) := by
  rw [textRows, textRows, List.map_map]
  rfl

mutual

theorem Layout.rows_deepen (k : Nat) : ∀ (l : Layout) (level : Nat) (before : List Row),
    l.rows (k + level) (before.map (Row.deepen k)) = (l.rows level before).map (Row.deepen k)
  | .line text, level, before | .comment text, level, before => by
    rw [rows, rows, textRows_deepen, List.map_append]
  | .gap, level, before => by
    rw [rows, rows, List.isEmpty_map, endsBlank_deepen]
    split
    · rfl
    · rw [List.map_append]
      rfl
  | .indented body, level, before => by
    rw [rows, rows]
    exact rowsAll_deepen k body (level + 1) before
  | .spliced body, level, before => by
    rw [rows, rows, List.map_append, ← rowsAll_deepen k body level []]
    rfl

/-- The same layouts some levels deeper are the same rows some levels deeper. -/
theorem Layout.rowsAll_deepen (k : Nat) : ∀ (ls : List Layout) (level : Nat) (before : List Row),
    rowsAll (k + level) (before.map (Row.deepen k)) ls =
      (rowsAll level before ls).map (Row.deepen k)
  | [], level, before => by rw [rowsAll, rowsAll]
  | l :: rest, level, before => by
    rw [rowsAll, rowsAll, rows_deepen k l level before]
    exact rowsAll_deepen k rest level _

end

end

/-! ## Emitters -/

namespace Emitter

variable {e : Emitter}

/-- The emitter behind rows that it has written. -/
def showing (e : Emitter) (rows : List Row) : Emitter :=
  { e with newline := "\n", out := writeRows e.indentWidth rows }

/-- More rows behind those that are there. -/
theorem append_showing (e : Emitter) (rows more : List Row) :
    (e.showing rows).append (writeRows e.indentWidth more) = e.showing (rows ++ more) := by
  rw [showing, showing, append, writeRows_append]

/-- One more line is one more row. -/
theorem row_showing (e : Emitter) (rows : List Row) (comment : Bool) (line : String) :
    (e.showing rows).row line = e.showing (rows ++ [⟨e.level, Text.shownText line, comment⟩]) := by
  rw [← append_showing, writeRows_singleton, row, Row.shown, Text.shownText]
  by_cases hblank : Text.isBlank line = true
  · simp [hblank, append, showing]
  · have hne : line ≠ "" := fun h => hblank (h ▸ rfl)
    simp [hblank, hne, append, showing, indent, String.append_assoc]

theorem foldl_row_showing (e : Emitter) (comment : Bool) : ∀ (lines : List String) (rows : List Row),
    lines.foldl row (e.showing rows) =
      e.showing (rows ++ lines.map fun line => ⟨e.level, Text.shownText line, comment⟩)
  | [], rows => by simp
  | line :: rest, rows => by
    rw [List.foldl_cons, row_showing e rows comment, foldl_row_showing e comment rest,
      List.map_cons, List.append_assoc, List.singleton_append]

/-- A text is written as its rows. -/
theorem line_showing (e : Emitter) (rows : List Row) (comment : Bool) (text : String) :
    (e.showing rows).line text = e.showing (rows ++ textRows e.level comment text) := by
  unfold line textRows Text.shownLines
  split
  · rw [← append_showing, List.map_singleton, writeRows_singleton]
    rfl
  · rw [List.map_map]
    exact foldl_row_showing e comment _ rows

/-- Two line feeds end a text with a line feed at its end iff one stands in front of that. -/
theorem isSuffixOf_newlines (cs : List Char) :
    ['\n', '\n'].isSuffixOf (cs ++ ['\n']) = decide (cs.getLast? = some '\n') := by
  rcases cs.eq_nil_or_concat with rfl | ⟨init, c, rfl⟩
  · decide
  · simp [List.isSuffixOf, List.isPrefixOf, Bool.beq_eq_decide_eq, eq_comm]

/-- Whether an empty line ends the text can be told from the rows. -/
theorem endsBlank_showing (e : Emitter) {rows : List Row} (h : ∀ r ∈ rows, r.Proper) :
    (e.showing rows).endsBlank = Rubify.endsBlank rows := by
  rcases rows.eq_nil_or_concat with rfl | ⟨init, r, rfl⟩
  · simp [endsBlank, showing, writeRows, Rubify.endsBlank]
  · rw [List.concat_eq_append] at h ⊢
    have hr : r.Proper := h r (by simp)
    have hout : (e.showing (init ++ [r])).out.toList =
        ((writeRows e.indentWidth init).toList ++ (r.shown e.indentWidth).toList) ++ ['\n'] := by
      simp [showing, writeRows_append, writeRows_singleton]
    have hnew : ("\n" ++ "\n").toList = ['\n', '\n'] := rfl
    rw [endsBlank, hout, showing, hnew, isSuffixOf_newlines, Rubify.endsBlank]
    by_cases hne : r.text = ""
    · have hinit : ∀ xs : List Row, decide (xs = []) = xs.isEmpty := fun xs => by cases xs <;> rfl
      simp [Row.shown, hne, getLast?_writeRows, hinit]
    · obtain ⟨c, hc, hlast⟩ := getLast?_shown e.indentWidth hr hne
      simp [List.getLast?_append, hlast, hc, hne]

theorem blank_showing (e : Emitter) {rows : List Row} (h : ∀ r ∈ rows, r.Proper) :
    (e.showing rows).blank =
      e.showing (if rows.isEmpty || Rubify.endsBlank rows then rows
        else rows ++ [⟨e.level, "", false⟩]) := by
  have hempty : (e.showing rows).isEmpty = rows.isEmpty := by
    rw [isEmpty, showing]
    cases rows with
    | nil => rfl
    | cons r rest => simp [writeRows]
  rw [blank, hempty, endsBlank_showing e h]
  split
  · rfl
  · rw [← append_showing, writeRows_singleton]
    rfl

/-- A row of a buffer is indented by the level of the buffer and that of the emitter. -/
theorem splicePiece_showing (e : Emitter) (rows : List Row) {r : Row} (h : r.Proper) :
    (e.showing rows).splicePiece ((r.shown e.indentWidth).toList, true) =
      e.showing (rows ++ [r.deepen e.level]) := by
  rw [← append_showing, writeRows_singleton, splicePiece, String.ofList_toList, isBlank_shown h]
  by_cases hne : r.text = ""
  · simp [hne, Row.shown, Row.deepen, append]
  · have hspaces : String.ofList (List.replicate ((e.level + r.level) * e.indentWidth) ' ') =
        e.indent ++ String.ofList (List.replicate (r.level * e.indentWidth) ' ') := by
      rw [Nat.add_mul, List.replicate_add, String.ofList_append, indent]
    simp [hne, Row.shown, Row.deepen, append, hspaces, String.append_assoc, showing, indent]

theorem foldl_splicePiece_showing (e : Emitter) : ∀ (buffer rows : List Row),
    (∀ r ∈ buffer, r.Proper) →
    (buffer.map fun r => ((r.shown e.indentWidth).toList, true)).foldl splicePiece (e.showing rows) =
      e.showing (rows ++ buffer.map (Row.deepen e.level))
  | [], rows, _ => by simp
  | r :: rest, rows, h => by
    obtain ⟨hr, hrest⟩ := List.forall_mem_cons.mp h
    rw [List.map_cons, List.foldl_cons, splicePiece_showing e rows hr,
      foldl_splicePiece_showing e rest _ hrest, List.map_cons, List.append_assoc,
      List.singleton_append]

theorem splice_showing (e : Emitter) (rows : List Row) {buffer : List Row}
    (h : ∀ r ∈ buffer, r.Proper) :
    (e.showing rows).splice (writeRows e.indentWidth buffer) =
      e.showing (rows ++ buffer.map (Row.deepen e.level)) := by
  rw [splice, pieces_writeRows e.indentWidth h, foldl_splicePiece_showing e buffer rows h]

end Emitter

/-! ## Layouts -/

namespace Layout

mutual

theorem write_showing : ∀ (l : Layout) (e : Emitter) {before : List Row},
    (∀ r ∈ before, r.Proper) → l.write (e.showing before) = e.showing (l.rows e.level before)
  | .line text, e, before, _ => by
    rw [write, rows, Emitter.line_showing e before false]
  | .comment text, e, before, _ => by
    rw [write, rows, Emitter.line_showing e before true]
  | .gap, e, before, h => by
    rw [write, rows, Emitter.blank_showing e h]
  | .indented body, e, before, h => by
    have hin := writeAll_showing body { e with level := e.level + 1 } h
    rw [write, rows, Emitter.indented]
    exact congrArg (fun inner : Emitter => { inner with level := e.level }) hin
  | .spliced body, e, before, h => by
    have hnil : ∀ r ∈ ([] : List Row), r.Proper := List.forall_mem_nil _
    have hin := writeAll_showing body ⟨e.indentWidth, "\n", 0, ""⟩ hnil
    have hrows := rowsAll_deepen e.level body 0 []
    rw [write, rows, Emitter.buffered]
    have hbuffer : (writeAll body ⟨e.indentWidth, "\n", 0, ""⟩).out =
        writeRows e.indentWidth (rowsAll 0 [] body) := congrArg Emitter.out hin
    calc (e.showing before).splice (writeAll body ⟨e.indentWidth, "\n", 0, ""⟩).out
        = e.showing (before ++ (rowsAll 0 [] body).map (Row.deepen e.level)) := by
          rw [hbuffer, Emitter.splice_showing e before (proper_rowsAll body hnil)]
      _ = e.showing (before ++ rowsAll e.level [] body) := by
          rw [← hrows]
          rfl

/-- **Writing layouts writes their rows.** -/
theorem writeAll_showing : ∀ (ls : List Layout) (e : Emitter) {before : List Row},
    (∀ r ∈ before, r.Proper) →
    writeAll ls (e.showing before) = e.showing (rowsAll e.level before ls)
  | [], e, before, _ => by rw [writeAll, rowsAll]
  | l :: rest, e, before, h => by
    rw [writeAll, rowsAll, write_showing l e h]
    exact writeAll_showing rest e (proper_rows l h)

end

end Layout

/-! ## Rows without levels -/

/-- The row without the blanks in front of it. -/
def Row.bare (r : Row) : List Char :=
  Text.bare r.text.toList

theorem bare_shown (width : Nat) (r : Row) : Text.bare (r.shown width).toList = r.bare := by
  unfold Row.shown Row.bare
  split
  · rename_i hempty
    rw [hempty]
  · rw [String.toList_append, String.toList_ofList, Text.bare_spaces]

theorem rows_writeRows (width : Nat) {rows : List Row} (h : ∀ r ∈ rows, r.Proper) :
    Text.rows (writeRows width rows) = rows.map Row.bare := by
  rw [Text.rows, pieces_writeRows width h, List.map_map]
  exact List.map_congr_left fun r _ => bare_shown width r

theorem map_bare_textRows (level : Nat) (comment : Bool) (text : String) :
    (textRows level comment text).map Row.bare = Text.lineRows text := by
  rw [textRows, List.map_map]
  rfl

namespace Layout

mutual

/-- The texts of a layout, in order. -/
def texts : Layout → List String
  | .line text | .comment text => [text]
  | .gap => []
  | .indented body | .spliced body => textsAll body

/-- The texts of layouts, in order. -/
def textsAll : List Layout → List String
  | [] => []
  | l :: rest => l.texts ++ textsAll rest

end

/-- Behind `before`, the rows come in blocks, and every one of the texts is a block. -/
def Adds (before rows : List Row) (texts : List String) : Prop :=
  ∃ blocks, rows.map Row.bare = before.map Row.bare ++ blocks.flatten ∧
    (texts.map Text.lineRows).Sublist blocks

theorem Adds.trans {before rows rows' : List Row} {xs ys : List String} (h : Adds before rows xs)
    (h' : Adds rows rows' ys) : Adds before rows' (xs ++ ys) := by
  obtain ⟨blocks, hrows, hsub⟩ := h
  obtain ⟨blocks', hrows', hsub'⟩ := h'
  refine ⟨blocks ++ blocks', ?_, ?_⟩
  · rw [hrows', hrows, List.flatten_append, List.append_assoc]
  · rw [List.map_append]
    exact hsub.append hsub'

mutual

theorem adds_rows : ∀ (l : Layout) (level : Nat) (before : List Row),
    Adds before (l.rows level before) l.texts
  | .line text, level, before | .comment text, level, before => by
    refine ⟨[Text.lineRows text], ?_, .refl _⟩
    rw [rows, List.map_append, map_bare_textRows, List.flatten_singleton]
  | .gap, level, before => by
    rw [rows]
    split
    · exact ⟨[], (List.append_nil _).symm, .refl _⟩
    · exact ⟨[[[]]], by rw [List.map_append]; rfl, List.nil_sublist _⟩
  | .indented body, level, before => by
    rw [rows, texts]
    exact adds_rowsAll body (level + 1) before
  | .spliced body, level, before => by
    obtain ⟨blocks, hrows, hsub⟩ := adds_rowsAll body level []
    refine ⟨blocks, ?_, hsub⟩
    rw [rows, List.map_append, hrows]
    rfl

theorem adds_rowsAll : ∀ (ls : List Layout) (level : Nat) (before : List Row),
    Adds before (rowsAll level before ls) (textsAll ls)
  | [], _, _ => ⟨[], (List.append_nil _).symm, .refl _⟩
  | l :: rest, level, before =>
    (adds_rows l level before).trans (adds_rowsAll rest level (l.rows level before))

end

/-- **Every text of a layout is written whole**, as rows of its own. -/
theorem rows_writeAll (ls : List Layout) {e : Emitter} (hnew : e.newline = "\n") (hout : e.out = "") :
    ∃ blocks, Text.rows (writeAll ls e).out = blocks.flatten ∧
      ((textsAll ls).map Text.lineRows).Sublist blocks := by
  obtain ⟨width, newline, level, out⟩ := e
  obtain rfl : newline = "\n" := hnew
  obtain rfl : out = "" := hout
  have hnil : ∀ r ∈ ([] : List Row), r.Proper := List.forall_mem_nil _
  have hwrite : (writeAll ls ⟨width, "\n", level, ""⟩).out =
      writeRows width (rowsAll level [] ls) :=
    congrArg Emitter.out (writeAll_showing ls ⟨width, "\n", level, ""⟩ hnil)
  obtain ⟨blocks, hrows, hsub⟩ := adds_rowsAll ls level []
  refine ⟨blocks, ?_, hsub⟩
  rw [hwrite, rows_writeRows width (proper_rowsAll ls hnil), hrows]
  rfl

theorem textsAll_append (xs ys : List Layout) :
    textsAll (xs ++ ys) = textsAll xs ++ textsAll ys := by
  induction xs with
  | nil => rfl
  | cons l xs ih => rw [List.cons_append, textsAll, textsAll, ih, List.append_assoc]

end Layout

end Rubify
