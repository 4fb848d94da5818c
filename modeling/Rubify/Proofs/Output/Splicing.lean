import Rubify.Proofs.Output.Levels

/-!
# Splicing instead of writing in place

A part of the output can be written at level zero into a buffer of its own and spliced in later. The
buffer is then cut into lines again, and each of them is judged once more for whether it shows
anything. For layouts without gaps this makes no difference to writing them where they belong: what
they write is a text behind the one that is there, whatever that is (`Appends`), and it consists of
their rows at the level of the emitter (`writeAll_eq_append`). A gap looks at the text in front of it,
so it can tell a buffer from the output.

Headline:
* **`Layout.splice_buffered`**: splicing a buffer in leaves the emitter as writing in place does.
-/

namespace Rubify

/-! ## Writers that only append -/

namespace Emitter

/-- The emitter before it has written anything. -/
def fresh (e : Emitter) : Emitter :=
  { e with out := "" }

/-- The writer adds a text behind the one that is there, which has no influence on it. -/
def Appends (write : Emitter → Emitter) : Prop :=
  ∀ e, write e = e.append (write e.fresh).out

theorem append_append (e : Emitter) (s t : String) : (e.append s).append t = e.append (s ++ t) := by
  rw [append, append, append, String.append_assoc]

theorem fresh_append (e : Emitter) (s : String) : (e.append s).fresh = e.fresh := rfl

theorem out_append_fresh (e : Emitter) (s : String) : (e.fresh.append s).out = s :=
  String.empty_append

/-- A text that depends on the level alone. -/
theorem appends_append {text : Emitter → String} (h : ∀ e, text e.fresh = text e) :
    Appends fun e => e.append (text e) := by
  intro e
  dsimp only
  rw [h e, out_append_fresh]

theorem appends_id : Appends fun e => e := fun e => by simp [append, fresh]

theorem Appends.comp {f g : Emitter → Emitter} (hf : Appends f) (hg : Appends g) :
    Appends fun e => g (f e) := by
  -- behind any text of `f` the emitter is as fresh as before
  have hboth (e : Emitter) : g (f e) = e.append ((f e.fresh).out ++ (g e.fresh).out) := by
    rw [hg (f e), hf e, fresh_append, append_append]
  intro e
  dsimp only
  rw [hboth e, hboth e.fresh, out_append_fresh]
  rfl

theorem Appends.foldl {α : Type} {f : Emitter → α → Emitter} (hf : ∀ a, Appends fun e => f e a) :
    ∀ items : List α, Appends fun e => items.foldl f e
  | [] => appends_id
  | a :: rest => (hf a).comp (Appends.foldl hf rest)

theorem appends_row (text : String) : Appends fun e => e.row text := by
  unfold row
  split
  · exact appends_append fun _ => rfl
  · simp only [append_append]
    exact appends_append fun _ => rfl

theorem appends_line (text : String) : Appends fun e => e.line text := by
  unfold line
  split
  · exact appends_append fun _ => rfl
  · exact Appends.foldl appends_row _

theorem appends_splicePiece (piece : List Char × Bool) : Appends fun e => e.splicePiece piece := by
  unfold splicePiece
  dsimp only
  split <;> simp only [append_append] <;> exact appends_append fun _ => rfl

theorem appends_splice (buffer : String) : Appends fun e => e.splice buffer :=
  Appends.foldl appends_splicePiece _

/-- A writer one level deeper. -/
theorem Appends.indented {write : Emitter → Emitter} (h : Appends write) :
    Appends fun e => (e.indented fun inner => (write inner, ())).1 := by
  intro e
  have hinner := h { e with level := e.level + 1 }
  exact congrArg (fun inner : Emitter => { inner with level := e.level }) hinner

end Emitter

/-! ## Layouts without gaps -/

namespace Layout

mutual

/-- Whether no gap stands in a layout. -/
def gapless : Layout → Bool
  | .line _ | .comment _ => true
  | .gap => false
  | .indented body | .spliced body => gaplessAll body

/-- Whether no gap stands in layouts. -/
def gaplessAll : List Layout → Bool
  | [] => true
  | l :: rest => l.gapless && gaplessAll rest

end

theorem gaplessAll_append (xs ys : List Layout) :
    gaplessAll (xs ++ ys) = (gaplessAll xs && gaplessAll ys) := by
  induction xs with
  | nil => rfl
  | cons l xs ih => rw [List.cons_append, gaplessAll, gaplessAll, ih, Bool.and_assoc]

theorem writeAll_append (xs ys : List Layout) (e : Emitter) :
    writeAll (xs ++ ys) e = writeAll ys (writeAll xs e) := by
  induction xs generalizing e with
  | nil => rfl
  | cons l xs ih => rw [List.cons_append, writeAll, writeAll, ih]

mutual

theorem appends_write : ∀ {l : Layout}, l.gapless = true → Emitter.Appends l.write
  | .line text, _ | .comment text, _ => Emitter.appends_line text
  | .indented _, h => (appends_writeAll h).indented
  | .spliced _, _ => fun e => Emitter.appends_splice _ e

theorem appends_writeAll : ∀ {ls : List Layout}, gaplessAll ls = true → Emitter.Appends (writeAll ls)
  | [], _ => Emitter.appends_id
  | l :: rest, h => by
    obtain ⟨hl, hrest⟩ := Bool.and_eq_true_iff.mp h
    exact (appends_write hl).comp (appends_writeAll hrest)

end

mutual

theorem rows_eq_append : ∀ {l : Layout}, l.gapless = true → ∀ (level : Nat) (before : List Row),
    l.rows level before = before ++ l.rows level []
  | .line _, _, level, before | .comment _, _, level, before => by
    rw [rows, rows, List.nil_append]
  | .indented body, h, level, before => by
    rw [rows, rows]
    exact rowsAll_eq_append h (level + 1) before
  | .spliced _, _, level, before => by
    rw [rows, rows, List.nil_append]

theorem rowsAll_eq_append : ∀ {ls : List Layout}, gaplessAll ls = true →
    ∀ (level : Nat) (before : List Row), rowsAll level before ls = before ++ rowsAll level [] ls
  | [], _, level, before => (List.append_nil before).symm
  | l :: rest, h, level, before => by
    obtain ⟨hl, hrest⟩ := Bool.and_eq_true_iff.mp h
    rw [rowsAll, rowsAll, rowsAll_eq_append hrest, rows_eq_append hl, List.append_assoc,
      ← rowsAll_eq_append hrest]

end

/-- Layouts without gaps do not look at each other. -/
theorem rowsAll_eq_flatMap {ls : List Layout} (h : gaplessAll ls = true) (level : Nat) :
    rowsAll level [] ls = ls.flatMap fun l => l.rows level [] := by
  induction ls with
  | nil => rfl
  | cons l rest ih =>
    obtain ⟨-, hrest⟩ := Bool.and_eq_true_iff.mp h
    rw [rowsAll, rowsAll_eq_append hrest, ih hrest, List.flatMap_cons]

mutual

theorem le_level_of_mem_rows : ∀ (l : Layout) {least level : Nat} {before : List Row},
    least ≤ level → (∀ r ∈ before, least ≤ r.level) → ∀ r ∈ l.rows level before, least ≤ r.level
  | .line text, least, level, before, hle, h | .comment text, least, level, before, hle, h => by
    rw [rows]
    refine List.forall_mem_append.mpr ⟨h, fun r hr => ?_⟩
    rwa [(mem_textRows hr).1]
  | .gap, least, level, before, hle, h => by
    rw [rows]
    split
    · exact h
    · exact List.forall_mem_append.mpr ⟨h, List.forall_mem_singleton.mpr hle⟩
  | .indented body, least, level, before, hle, h => by
    rw [rows]
    exact le_level_of_mem_rowsAll body (Nat.le_succ_of_le hle) h
  | .spliced body, least, level, before, hle, h => by
    rw [rows]
    exact List.forall_mem_append.mpr ⟨h, le_level_of_mem_rowsAll body hle (List.forall_mem_nil _)⟩

/-- No row stands in front of the level that layouts are written at. -/
theorem le_level_of_mem_rowsAll : ∀ (ls : List Layout) {least level : Nat} {before : List Row},
    least ≤ level → (∀ r ∈ before, least ≤ r.level) →
      ∀ r ∈ rowsAll level before ls, least ≤ r.level
  | [], least, level, before, _, h => by
    rw [rowsAll]
    exact h
  | l :: rest, least, level, before, hle, h => by
    rw [rowsAll]
    exact le_level_of_mem_rowsAll rest hle (le_level_of_mem_rows l hle h)

end

/-- Lines are written one after another. -/
theorem writeAll_map_line {α : Type} (text : α → String) (items : List α) (e : Emitter) :
    writeAll (items.map fun a => .line (text a)) e =
      e.append (String.join (items.map fun a => (e.fresh.line (text a)).out)) := by
  induction items generalizing e with
  | nil => exact Emitter.appends_id e
  | cons a items ih =>
    have hline : e.line (text a) = e.append (e.fresh.line (text a)).out :=
      Emitter.appends_line (text a) e
    rw [List.map_cons, writeAll, ih, write, hline, Emitter.fresh_append, Emitter.append_append,
      List.map_cons, String.join_cons]

section

variable {e : Emitter} {ls : List Layout}

theorem fresh_eq_showing (hnew : e.newline = "\n") : e.fresh = e.showing [] := by
  rw [Emitter.fresh, Emitter.showing, ← hnew]
  rfl

/-- Layouts without gaps write their rows, behind any text. -/
theorem writeAll_eq_append (h : gaplessAll ls = true) (hnew : e.newline = "\n") :
    writeAll ls e = e.append (writeRows e.indentWidth (rowsAll e.level [] ls)) := by
  rw [appends_writeAll h e, fresh_eq_showing hnew, writeAll_showing ls e (List.forall_mem_nil _)]
  rfl

/-- Rows that stand in a buffer are spliced in at the level of the emitter. -/
theorem splice_eq_append (hnew : e.newline = "\n") {rows : List Row} (h : ∀ r ∈ rows, r.Proper) :
    e.splice (writeRows e.indentWidth rows) =
      e.append (writeRows e.indentWidth (rows.map (Row.deepen e.level))) := by
  have hsplice : e.splice (writeRows e.indentWidth rows) =
      e.append (e.fresh.splice (writeRows e.indentWidth rows)).out := Emitter.appends_splice _ e
  rw [hsplice, fresh_eq_showing hnew, Emitter.splice_showing e [] h]
  rfl

/-- **Splicing equals writing in place.** Layouts without gaps that are written into a buffer and
spliced in leave the emitter as it is when they are written on it. -/
theorem splice_buffered (hnew : e.newline = "\n") (h : gaplessAll ls = true) :
    e.splice (e.buffered fun inner => (writeAll ls inner, ())).1 = writeAll ls e := by
  have hbuffer : (e.buffered fun inner => (writeAll ls inner, ())).1 =
      writeRows e.indentWidth (rowsAll 0 [] ls) := by
    have hwrite := writeAll_eq_append (e := ⟨e.indentWidth, e.newline, 0, ""⟩) h hnew
    rw [Emitter.buffered, hwrite, Emitter.append]
    exact String.empty_append
  have hdeep : rowsAll e.level [] ls = (rowsAll 0 [] ls).map (Row.deepen e.level) :=
    rowsAll_deepen e.level ls 0 []
  rw [hbuffer, splice_eq_append hnew (proper_rowsAll ls (List.forall_mem_nil _)), ← hdeep,
    writeAll_eq_append h hnew]

end

/-- Texts with line feeds, carriage returns and blank lines in them, in nested scopes. -/
def ragged : List Layout :=
  [.line "a\r\n \t\n  b\r", .indented [.line "", .line "\n", .indented [.line "c\n\r\nd"]],
    .line " \r"]

/-- An emitter in the middle of a line, one level deep. -/
def midway : Emitter :=
  ⟨3, "\n", 1, "x"⟩

theorem splice_buffered_ragged : gaplessAll ragged = true ∧
    midway.splice (midway.buffered fun inner => (writeAll ragged inner, ())).1 =
      writeAll ragged midway ∧
    (writeAll ragged midway).out =
      "x   a\n\n     b\r\n\n\n         c\n\n         d\n\n" :=
  ⟨rfl, splice_buffered rfl rfl, by decide +kernel⟩

end Layout

/-! ## The lines of statements -/

namespace Ruby

theorem gaplessAll_commentLayout (comments : Bool) (texts : List String) :
    Layout.gaplessAll (commentLayout comments texts) = true := by
  cases comments with
  | false => rfl
  | true =>
    induction texts with
    | nil => rfl
    | cons text rest ih => exact ih

/-- The lines of statements have no gaps. -/
theorem gaplessAll_bodyLayout (comments : Bool) (body : List Flow.Stmt) :
    Layout.gaplessAll (bodyLayout comments body) = true := by
  -- along the four functions that lay out statements, branches, bodies and `else` branches
  apply bodyLayout.induct (fun s => Layout.gaplessAll (stmtLayout comments s) = true)
    (fun branches => Layout.gaplessAll (branchesLayout comments branches) = true)
    (fun body => Layout.gaplessAll (bodyLayout comments body) = true)
    (fun branch => Layout.gaplessAll (elseLayout comments branch) = true)
  all_goals intros
  all_goals simp_all [stmtLayout, branchesLayout, bodyLayout, elseLayout, Layout.gaplessAll,
    Layout.gapless, Layout.gaplessAll_append, gaplessAll_commentLayout]

end Ruby

end Rubify
