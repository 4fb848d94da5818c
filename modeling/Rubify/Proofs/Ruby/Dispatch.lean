import Rubify.Proofs.Comments.Written
import Rubify.Proofs.Program.Initialization
import Rubify.Proofs.Ruby.Parsing
import Mathlib.Data.List.Forall2
import Mathlib.Data.List.Nodup

/-!
# Telling constructors apart

Several constructors share one `initialize`, in which a `case` looks at the number of arguments. The
rows of it are read back by their levels: rows that are deeper than a level belong to the row of that
level in front of them (`sections`), so what a body consists of plays no part. What is read is a list of
clauses, each with the number of arguments that it is for.

The arguments get their names in one assignment. What it binds is said for Ruby's assignments as such
(`Binding.run`). Every parameter gets the argument of its place if there are as many arguments as
parameters, or if no parameter but the last one is variadic (`run_bindings`).

Headline:
* **`takeConstructors_dispatches`**: constructors either overlap and are rejected, or are written as
  clauses of which exactly one applies to every number of arguments, each constructor in one of them.
-/

namespace Rubify

/-! ## Sections -/

/-- Rows by the rows of a level: the rows in front of the first one, and each one with the deeper rows
behind it. -/
def sections (level : Nat) : List Row → List Row × List (Row × List Row)
  | [] => ([], [])
  | r :: rest =>
    if level < r.level then (r :: (sections level rest).1, (sections level rest).2)
    else ([], (r, (sections level rest).1) :: (sections level rest).2)

/-- Rows, each with the deeper rows behind it, one after another. -/
def flattenSections (parts : List (Row × List Row)) : List Row :=
  parts.flatMap fun part => part.1 :: part.2

/-- The row is not deeper than the level, and the rows behind it are. -/
structure Heads (level : Nat) (part : Row × List Row) : Prop where
  head : part.1.level ≤ level
  deeper : ∀ r ∈ part.2, level < r.level

section

variable {level : Nat}

theorem sections_append {deep : List Row} (h : ∀ r ∈ deep, level < r.level) (rest : List Row) :
    sections level (deep ++ rest) = (deep ++ (sections level rest).1, (sections level rest).2) := by
  induction deep with
  | nil => rfl
  | cons r deep ih =>
    obtain ⟨hr, hdeep⟩ := List.forall_mem_cons.mp h
    rw [List.cons_append, sections, if_pos hr, ih hdeep]
    rfl

/-- Sections are found again. -/
theorem sections_flattenSections {parts : List (Row × List Row)} (h : ∀ part ∈ parts, Heads level part) :
    sections level (flattenSections parts) = ([], parts) := by
  induction parts with
  | nil => rfl
  | cons part parts ih =>
    obtain ⟨hpart, hparts⟩ := List.forall_mem_cons.mp h
    have hjoin : flattenSections (part :: parts) = part.1 :: (part.2 ++ flattenSections parts) := rfl
    rw [hjoin, sections, if_neg (Nat.not_lt.mpr hpart.head), sections_append hpart.deeper,
      ih hparts, List.append_nil]

end

namespace Ruby

open Program

/-! ## Numerals -/

/-- The number that digits stand for. -/
def decimal? (text : String) : Option Nat :=
  if text.toList.all Char.isDigit then some (Nat.ofDigitChars 10 text.toList 0) else none

theorem digits_toString (n : Nat) : (toString n).toList = Nat.toDigits 10 n :=
  Nat.toList_repr

theorem isDigit_of_mem_toString {n : Nat} {c : Char} (h : c ∈ (toString n).toList) :
    c.isDigit = true := by
  rw [digits_toString] at h
  exact Nat.isDigit_of_mem_toDigits (by decide) (by decide) h

theorem decimal?_toString (n : Nat) : decimal? (toString n) = some n := by
  rw [decimal?, if_pos (List.all_eq_true.mpr fun _ => isDigit_of_mem_toString), digits_toString,
    Nat.ofDigitChars_ten_toDigits]

theorem not_whitespace_of_isDigit {c : Char} (h : c.isDigit = true) :
    Text.whitespace.contains c = false := by
  obtain ⟨hlow, hhigh⟩ := Bool.and_eq_true_iff.mp h
  have hlow : 48 ≤ c.toNat := UInt32.le_iff_toNat_le.mp (of_decide_eq_true hlow)
  have hhigh : c.toNat ≤ 57 := UInt32.le_iff_toNat_le.mp (of_decide_eq_true hhigh)
  simp only [Text.CharSet.contains, Text.whitespace, Text.CharSet.within]
  rw [if_neg (by omega), if_neg (by omega), if_neg (by omega), if_neg (by omega), if_pos (by omega)]

theorem oneLine_toString (n : Nat) : OneLine (toString n) := by
  have hne : (toString n).toList ≠ [] := by
    rw [digits_toString]
    exact Nat.toDigits_ne_nil
  have hshown : ∀ c ∈ (toString n).toList, (!Text.whitespace.contains c) = true := fun c hc => by
    rw [not_whitespace_of_isDigit (isDigit_of_mem_toString hc)]
    rfl
  refine ⟨fun hmem => absurd (isDigit_of_mem_toString hmem) (by decide), ?_, ?_⟩
  · rw [List.head?_eq_some_head hne]
    exact hshown _ (List.head_mem hne)
  · rw [List.getLast?_eq_some_getLast hne]
    exact hshown _ (List.getLast_mem hne)

/-! ## Clauses -/

/-- A clause of a `case` over the number of arguments, for one number or for all others. -/
structure Clause where
  count : Option Nat
  rows : List Row

/-- Reads the clauses up to the end of the `case`. Nothing stands behind an `else`. -/
def readClauses : List (Row × List Row) → Option (List Clause)
  | [] => none
  | (head, rows) :: rest =>
    match Line.read head.text with
    | .when labels => (decimal? labels).bind fun count =>
      (readClauses rest).map (⟨some count, rows⟩ :: ·)
    | .otherwise => (readClauses rest).bind fun clauses =>
      if clauses.isEmpty then some [⟨none, rows⟩] else none
    | .closes => if rows.isEmpty && rest.isEmpty then some [] else none
    | _ => none

/-- Reads a `case` over the number of arguments. -/
def readCase (level : Nat) (rows : List Row) : Option (List Clause) :=
  match sections level rows with
  | ([], (head, []) :: clauses) =>
    if head.text = "case args.size" then readClauses clauses else none
  | _ => none

/-- Reads an `initialize` that consists of such a `case`. -/
def readInitialize (level : Nat) (rows : List Row) : Option (List Clause) :=
  match sections level rows with
  | ([], [(head, inner), (last, [])]) =>
    if head.text = "def initialize(*args)" ∧ last.text = "end" then readCase (level + 1) inner
    else none
  | _ => none

/-- Whether a clause is the one for a number of arguments. -/
def Clause.applies (clauses : List Clause) (given : Nat) (c : Clause) : Bool :=
  c.count = some given || c.count = none && clauses.all fun d => d.count ≠ some given

section

variable {whens : List Clause} {otherwise : Clause}

theorem filter_count_eq (hdistinct : (whens.map Clause.count).Nodup) {c : Clause} (hc : c ∈ whens) :
    whens.filter (·.count = c.count) = [c] := by
  induction whens with
  | nil => cases hc
  | cons d whens ih =>
    obtain ⟨hd, hwhens⟩ := List.nodup_cons.mp hdistinct
    have hother : ∀ e ∈ whens, d.count ≠ e.count := fun e he heq =>
      hd (heq ▸ List.mem_map_of_mem he)
    rcases List.mem_cons.mp hc with rfl | hc
    · have hnil : whens.filter (·.count = c.count) = [] :=
        List.filter_eq_nil_iff.mpr fun e he => by simpa using Ne.symm (hother e he)
      rw [List.filter_cons_of_pos (by simp), hnil]
    · rw [List.filter_cons_of_neg (by simpa using hother c hc), ih hwhens hc]

/-- **Exactly one clause applies**, if no two are for the same number and the last one is for all
others. -/
theorem exists_filter_applies (hdistinct : (whens.map Clause.count).Nodup)
    (hwhens : ∀ c ∈ whens, c.count ≠ none) (hother : otherwise.count = none) (given : Nat) :
    ∃ c, (whens ++ [otherwise]).filter (Clause.applies (whens ++ [otherwise]) given) = [c] := by
  have happlies : ∀ c ∈ whens,
      Clause.applies (whens ++ [otherwise]) given c = decide (c.count = some given) := fun c hc => by
    simp [Clause.applies, hwhens c hc]
  rw [List.filter_append, List.filter_congr happlies]
  by_cases h : ∃ c ∈ whens, c.count = some given
  · obtain ⟨c, hc, hcount⟩ := h
    have hlast : Clause.applies (whens ++ [otherwise]) given otherwise = false := by
      simpa [Clause.applies, hother] using ⟨c, hc, hcount⟩
    refine ⟨c, ?_⟩
    rw [← hcount, filter_count_eq hdistinct hc, List.filter_cons_of_neg (by simp [hlast])]
    rfl
  · have hnone : ∀ c ∈ whens, c.count ≠ some given := fun c hc hcount => h ⟨c, hc, hcount⟩
    have hlast : Clause.applies (whens ++ [otherwise]) given otherwise = true := by
      simpa [Clause.applies, hother] using hnone
    refine ⟨otherwise, ?_⟩
    rw [List.filter_eq_nil_iff.mpr fun c hc => by simpa using hnone c hc,
      List.filter_cons_of_pos hlast]
    rfl

end

/-! ## Binding arguments -/

/-- What a parameter is bound to: one argument, nil if there is none, or the rest of them. -/
inductive Argument (V : Type)
  | one (value : Option V)
  | rest (values : List V)

/-- The argument of a place among `count` parameters. A variadic one takes from its place on what the
others leave. -/
def argument {V : Type} (args : List V) (count place : Nat) (p : Param) : Argument V :=
  if p.variadic then .rest ((args.drop place).take (args.length + 1 - count)) else .one args[place]?

/-- An assignment of the arguments to variables. -/
inductive Binding
  /-- All arguments as one list. -/
  | whole (name : String)
  | first (name : String)
  /-- Several variables at once; a variadic one takes what the others leave. -/
  | spread (p q : Param) (more : List Param)

/-- Assigns a list to several variables from left to right. A variable without value left is nil, and
one with a star leaves as many values as there are variables behind it. -/
def spread {V : Type} : List Param → List V → List (String × Argument V)
  | [], _ => []
  | p :: rest, args =>
    if p.variadic then
      (p.name, .rest (args.take (args.length - rest.length))) ::
        spread rest (args.drop (args.length - rest.length))
    else (p.name, .one args.head?) :: spread rest args.tail

/-- A variable among several that are assigned; one with a star takes what the others leave. -/
def target (p : Param) : String :=
  (if p.variadic then "*" else "") ++ p.name

namespace Binding

/-- The line of an assignment. -/
def text : Binding → String
  | .whole name => name ++ " = args"
  | .first name => name ++ " = args[0]"
  | .spread p q more => ", ".intercalate ((p :: q :: more).map target) ++ " = args"

/-- The variables that an assignment binds, in order. -/
def run {V : Type} (args : List V) : Binding → List (String × Argument V)
  | .whole name => [(name, .rest args)]
  | .first name => [(name, .one args[0]?)]
  | .spread p q more => Ruby.spread (p :: q :: more) args

end Binding

/-- The assignments that parameters need. -/
def bindings : List Param → List Binding
  | [] => []
  | [p] => [if p.variadic then .whole p.name else .first p.name]
  | p :: q :: rest => [.spread p q rest]

theorem paramText_eq_target : paramText = target := by
  funext p
  unfold paramText target
  cases p.variadic <;> simp

theorem bindLayout_eq (params : List Param) :
    bindLayout params = (bindings params).map fun b => .line b.text := by
  rcases params with _ | ⟨p, _ | ⟨q, more⟩⟩
  · rfl
  · cases hp : p.variadic with
    | true => simp [bindLayout, bindings, hp, Binding.text]
    | false => simp [bindLayout, bindings, hp, Binding.text]
  · show [Layout.line (", ".intercalate ((p :: q :: more).map paramText) ++ " = args")] = _
    rw [paramText_eq_target]
    rfl

/-- Only the last parameter is variadic, or there are as many arguments as parameters. -/
def Fits {V : Type} (params : List Param) (args : List V) : Prop :=
  (∀ p ∈ params.dropLast, p.variadic = false) ∨ args.length = params.length

theorem Fits.tail {V : Type} {p : Param} {params : List Param} {args : List V}
    (h : Fits (p :: params) args) : Fits params args.tail := by
  rcases h with h | h
  · refine .inl fun q hq => ?_
    cases params with
    | nil => cases hq
    | cons next more => exact h q (List.mem_cons_of_mem p hq)
  · exact .inr (by rw [List.length_tail, h, List.length_cons, Nat.add_sub_cancel])

/-- The variables of a list are bound by their places. -/
theorem spread_drop {V : Type} (args : List V) {params : List Param} (place : Nat)
    (h : Fits params (args.drop place)) : spread params (args.drop place) =
      params.mapIdx fun i p => (p.name, argument args (place + params.length) (place + i) p) := by
  induction params generalizing place with
  | nil => rfl
  | cons p rest ih =>
    have htail := h.tail
    rw [List.tail_drop] at htail
    have hrest : rest.mapIdx (fun i q =>
          (q.name, argument args (place + (p :: rest).length) (place + (i + 1)) q)) =
        spread rest (args.drop (place + 1)) := by
      rw [ih (place + 1) htail, List.length_cons]
      simp only [Nat.add_assoc, Nat.add_comm 1]
    rw [List.mapIdx_cons, hrest, spread, argument, List.length_cons, List.length_drop]
    cases hp : p.variadic with
    | false => simp [List.head?_drop, List.tail_drop]
    | true =>
      have htake : args.length + 1 - (place + (rest.length + 1)) =
          args.length - place - rest.length := by omega
      have hleft : spread rest ((args.drop place).drop (args.length - place - rest.length)) =
          spread rest (args.drop (place + 1)) := by
        rcases h with h | h
        · cases rest with
          | nil => rfl
          | cons q more => exact absurd (h p List.mem_cons_self) (by simp [hp])
        · rw [List.length_drop, List.length_cons] at h
          rw [h, Nat.add_sub_cancel_left, List.drop_drop]
      rw [if_pos rfl, if_pos rfl, hleft, htake]
      rfl

/-- **Every parameter is bound to the argument of its place.** -/
theorem run_bindings {V : Type} (args : List V) {params : List Param} (h : Fits params args) :
    (bindings params).flatMap (·.run args) =
      params.mapIdx fun place p => (p.name, argument args params.length place p) := by
  rcases params with _ | ⟨p, _ | ⟨q, more⟩⟩
  · rfl
  · cases hp : p.variadic with
    | true => simp [bindings, hp, Binding.run, argument]
    | false => simp [bindings, hp, Binding.run, argument]
  · have hspread := spread_drop args 0 h
    simp only [Nat.zero_add, List.drop_zero] at hspread
    simpa [bindings, Binding.run] using hspread

/-! ## Constructors with their bodies -/

section

variable {o : Options} {m : Module}

/-- Constructors whose bodies normalise have lines. -/
theorem exists_overloads {constructors : List Constructor}
    (h : ∀ c ∈ constructors, ∃ source stmts, c.body.stmts = some source ∧
      Flow.normalize o.closure source = .ok stmts) :
    ∃ cs, constructors.mapM (overloadOf o m) = .ok cs ∧ ∀ a ∈ cs, overloadOf o m a.1 = .ok a := by
  induction constructors with
  | nil => exact ⟨[], rfl, List.forall_mem_nil _⟩
  | cons c rest ih =>
    obtain ⟨⟨source, stmts, hsource, hstmts⟩, hrest⟩ := List.forall_mem_cons.mp h
    obtain ⟨cs, hmap, hcs⟩ := ih hrest
    have hc : overloadOf o m c = .ok (c, constructorBodyLayout o m c stmts) :=
      overloadOf_eq_ok.mpr ⟨stmts, normalizedBody_eq_ok.mpr ⟨source, hsource, hstmts⟩, rfl⟩
    refine ⟨(c, constructorBodyLayout o m c stmts) :: cs, ?_, List.forall_mem_cons.mpr ⟨hc, hcs⟩⟩
    rw [List.mapM_cons, hc, hmap]
    rfl

end

theorem gaplessAll_map_line {α : Type} (text : α → String) (items : List α) :
    Layout.gaplessAll (items.map fun a => .line (text a)) = true := by
  induction items with
  | nil => rfl
  | cons a items ih => exact ih

theorem rowsAll_map_line {α : Type} (text : α → String) (items : List α) (level : Nat) :
    Layout.rowsAll level [] (items.map fun a => .line (text a)) =
      items.flatMap fun a => textRows level false (text a) := by
  rw [Layout.rowsAll_eq_flatMap (gaplessAll_map_line text items), List.flatMap_map]
  rfl

theorem gaplessAll_constructorBodyLayout (o : Options) (m : Module) (c : Constructor)
    (stmts : List Flow.Stmt) : Layout.gaplessAll (constructorBodyLayout o m c stmts) = true := by
  rw [constructorBodyLayout, Layout.gaplessAll_append, gaplessAll_map_line, gaplessAll_bodyLayout]
  rfl

theorem gaplessAll_of_overloadOf {o : Options} {m : Module} {c : Constructor} {a : Overload}
    (h : overloadOf o m c = .ok a) : Layout.gaplessAll a.2 = true := by
  obtain ⟨stmts, -, rfl⟩ := overloadOf_eq_ok.mp h
  exact gaplessAll_constructorBodyLayout o m c stmts

/-- The rows inside the clause of a constructor. -/
def overloadRows (level : Nat) (a : Overload) : List Row :=
  (bindings a.1.params).flatMap (fun b => textRows level false b.text) ++
    Layout.rowsAll level [] a.2

section

variable {a : Overload}

theorem gapless_overloadLayout (h : Layout.gaplessAll a.2 = true) :
    (overloadLayout a).gapless = true := by
  rw [overloadLayout, Layout.gapless, Layout.gaplessAll_append, bindLayout_eq, gaplessAll_map_line]
  simpa [Layout.gaplessAll, Layout.gapless] using h

theorem rows_overloadLayout (h : Layout.gaplessAll a.2 = true) (level : Nat) :
    (overloadLayout a).rows level [] = overloadRows (level + 1) a := by
  have hgap : Layout.gaplessAll (bindLayout a.1.params ++ [.spliced a.2]) = true :=
    gapless_overloadLayout h
  rw [overloadLayout, Layout.rows, Layout.rowsAll_eq_flatMap hgap, List.flatMap_append, bindLayout_eq,
    ← Layout.rowsAll_eq_flatMap (gaplessAll_map_line Binding.text _), rowsAll_map_line, overloadRows,
    List.flatMap_singleton, Layout.rows, List.nil_append]

theorem lt_level_of_mem_overloadRows {level : Nat} {r : Row} (hr : r ∈ overloadRows (level + 1) a) :
    level < r.level := by
  rw [overloadRows, ← rowsAll_map_line] at hr
  rcases List.mem_append.mp hr with hr | hr
  · exact Layout.le_level_of_mem_rowsAll _ (Nat.le_refl _) (List.forall_mem_nil _) r hr
  · exact Layout.le_level_of_mem_rowsAll _ (Nat.le_refl _) (List.forall_mem_nil _) r hr

end

/-! ## The rows of the dispatch -/

/-- A line is one row. -/
theorem OneLine.textRows {text : String} (h : OneLine text) (level : Nat) (comment : Bool) :
    textRows level comment text = [⟨level, text, comment⟩] := by
  rw [Rubify.textRows, Text.shownLines, if_neg h.ne_empty, h.lines, List.map_singleton,
    Text.shownText, h.isBlank]
  rfl

theorem OneLine.rows {text : String} (h : OneLine text) (level : Nat) :
    Layout.rows level [] (.line text) = [⟨level, text, false⟩] := by
  rw [Layout.rows, List.nil_append, h.textRows]

/-- The comments of all constructors. -/
def remarks (o : Options) (constructors : List Constructor) : List Layout :=
  constructors.flatMap fun c => commentLayout o.comments c.comments

/-- What stands inside `initialize`. -/
def caseLayout (s : Overloads) : List Layout :=
  [Layout.line "case args.size"] ++
    s.fixed.flatMap (fun a =>
      [Layout.line ("when " ++ toString a.1.params.length), overloadLayout a]) ++
    [.line "else", elseLayoutOf s.variadic, .line "end"]

theorem dispatchLayout_eq (o : Options) (constructors : List Constructor) (s : Overloads) :
    dispatchLayout o constructors s = remarks o constructors ++
      [.line "def initialize(*args)", .indented (caseLayout s), .line "end"] := rfl

theorem gaplessAll_remarks (o : Options) (constructors : List Constructor) :
    Layout.gaplessAll (remarks o constructors) = true := by
  induction constructors with
  | nil => rfl
  | cons c rest ih =>
    rw [remarks, List.flatMap_cons, Layout.gaplessAll_append, gaplessAll_commentLayout, ← remarks, ih]
    rfl

theorem comment_of_mem_remarks {o : Options} {constructors : List Constructor} {level : Nat} {r : Row}
    (h : r ∈ Layout.rowsAll level [] (remarks o constructors)) : r.comment = true := by
  rw [Layout.rowsAll_eq_flatMap (gaplessAll_remarks o constructors)] at h
  obtain ⟨l, hl, hr⟩ := List.mem_flatMap.mp h
  obtain ⟨c, -, hl⟩ := List.mem_flatMap.mp hl
  unfold commentLayout at hl
  split at hl
  · obtain ⟨text, -, rfl⟩ := List.mem_map.mp hl
    rw [Layout.rows, List.nil_append] at hr
    exact (mem_textRows hr).2
  · cases hl

/-- What is raised for a number of arguments that no constructor takes. -/
def wrongCount : String :=
  "raise ArgumentError, \"wrong number of arguments (given #\x7bargs.size\x7d)\""

/-- The rows for all numbers of arguments that no clause names. -/
def elseRows (level : Nat) (variadic : Option Overload) : List Row :=
  variadic.elim [⟨level, wrongCount, false⟩] (overloadRows level)

/-- The row in front of the clause of a constructor, and the rows of it. -/
def whenSection (level : Nat) (a : Overload) : Row × List Row :=
  (⟨level, "when " ++ toString a.1.params.length, false⟩, overloadRows (level + 1) a)

/-- The `else` and the end of a dispatch. -/
def lastSections (level : Nat) (variadic : Option Overload) : List (Row × List Row) :=
  [(⟨level, "else", false⟩, elseRows (level + 1) variadic), (⟨level, "end", false⟩, [])]

/-- The dispatch by its rows at a level. -/
def caseSections (level : Nat) (s : Overloads) : List (Row × List Row) :=
  (⟨level, "case args.size", false⟩, []) ::
    (s.fixed.map (whenSection level) ++ lastSections level s.variadic)

/-- All of `initialize` by its rows at a level. -/
def initializeSections (level : Nat) (s : Overloads) : List (Row × List Row) :=
  [(⟨level, "def initialize(*args)", false⟩, flattenSections (caseSections (level + 1) s)),
    (⟨level, "end", false⟩, [])]

/-- No body in the containers has gaps. -/
structure Overloads.Gapless (s : Overloads) : Prop where
  fixed : ∀ a ∈ s.fixed, Layout.gaplessAll a.2 = true
  variadic : ∀ a ∈ s.variadic, Layout.gaplessAll a.2 = true

section

variable {cs : List Overload} (h : ∀ a ∈ cs, Layout.gaplessAll a.2 = true)

include h

theorem gaplessAll_whens : Layout.gaplessAll (cs.flatMap fun a =>
    [Layout.line ("when " ++ toString a.1.params.length), overloadLayout a]) = true := by
  induction cs with
  | nil => rfl
  | cons a cs ih =>
    obtain ⟨ha, hcs⟩ := List.forall_mem_cons.mp h
    rw [List.flatMap_cons, Layout.gaplessAll_append, ih hcs]
    simp [Layout.gaplessAll, Layout.gapless, gapless_overloadLayout ha]

theorem rowsAll_whens (level : Nat) : Layout.rowsAll level [] (cs.flatMap fun a =>
    [Layout.line ("when " ++ toString a.1.params.length), overloadLayout a]) =
      flattenSections (cs.map (whenSection level)) := by
  rw [Layout.rowsAll_eq_flatMap (gaplessAll_whens h), flattenSections]
  simp only [List.flatMap_assoc, List.flatMap_map]
  refine List.flatMap_congr fun a ha => ?_
  have hwhen : OneLine ("when " ++ toString a.1.params.length) :=
    (oneLine_toString a.1.params.length).behind (by decide) (by decide)
  simp only [List.flatMap_cons, List.flatMap_nil, List.append_nil, hwhen.rows,
    rows_overloadLayout (h a ha), whenSection, List.singleton_append]

end

section

variable {variadic : Option Overload} (h : ∀ a ∈ variadic, Layout.gaplessAll a.2 = true)

include h

theorem gapless_elseLayoutOf : (elseLayoutOf variadic).gapless = true := by
  cases variadic with
  | none => rfl
  | some a => exact gapless_overloadLayout (h a rfl)

theorem rows_elseLayoutOf (level : Nat) :
    (elseLayoutOf variadic).rows level [] = elseRows (level + 1) variadic := by
  cases variadic with
  | none => exact OneLine.rows (by decide : OneLine wrongCount) (level + 1)
  | some a => exact rows_overloadLayout (h a rfl) level

end

section

variable {s : Overloads} (h : s.Gapless) (level : Nat)

include h

theorem gaplessAll_caseLayout : Layout.gaplessAll (caseLayout s) = true := by
  rw [caseLayout, Layout.gaplessAll_append, Layout.gaplessAll_append, gaplessAll_whens h.fixed]
  simp [Layout.gaplessAll, Layout.gapless, gapless_elseLayoutOf h.variadic]

theorem rowsAll_caseLayout :
    Layout.rowsAll level [] (caseLayout s) = flattenSections (caseSections level s) := by
  rw [Layout.rowsAll_eq_flatMap (gaplessAll_caseLayout h), caseLayout, List.flatMap_append,
    List.flatMap_append, ← Layout.rowsAll_eq_flatMap (gaplessAll_whens h.fixed),
    rowsAll_whens h.fixed]
  have hcase : OneLine "case args.size" := by decide
  have helse : OneLine "else" := by decide
  have hend : OneLine "end" := by decide
  simp only [caseSections, flattenSections, lastSections, List.flatMap_append, List.flatMap_cons,
    List.flatMap_nil, List.append_nil, hcase.rows, helse.rows, hend.rows,
    rows_elseLayoutOf h.variadic, List.cons_append, List.nil_append]

theorem gaplessAll_dispatchLayout (o : Options) (constructors : List Constructor) :
    Layout.gaplessAll (dispatchLayout o constructors s) = true := by
  rw [dispatchLayout_eq, Layout.gaplessAll_append, gaplessAll_remarks]
  simp [Layout.gaplessAll, Layout.gapless, gaplessAll_caseLayout h]

/-- The rows of the dispatch: comments, and `initialize`. -/
theorem rowsAll_dispatchLayout (o : Options) (constructors : List Constructor) :
    Layout.rowsAll level [] (dispatchLayout o constructors s) =
      Layout.rowsAll level [] (remarks o constructors) ++
        flattenSections (initializeSections level s) := by
  rw [Layout.rowsAll_eq_flatMap (gaplessAll_dispatchLayout h o constructors), dispatchLayout_eq,
    List.flatMap_append, ← Layout.rowsAll_eq_flatMap (gaplessAll_remarks o constructors)]
  have hdef : OneLine "def initialize(*args)" := by decide
  have hend : OneLine "end" := by decide
  have hinner : Layout.rows level [] (.indented (caseLayout s)) =
      flattenSections (caseSections (level + 1) s) := by
    rw [Layout.rows, rowsAll_caseLayout h]
  simp only [initializeSections, flattenSections, List.flatMap_cons, List.flatMap_nil,
    List.append_nil, hdef.rows, hend.rows, hinner, List.cons_append, List.nil_append]

end

/-- The clause of a constructor that is for one number of arguments. -/
def whenClause (level : Nat) (a : Overload) : Clause :=
  ⟨some a.1.params.length, overloadRows level a⟩

section

variable (level : Nat)

theorem readClauses_whens (cs : List Overload) (rest : List (Row × List Row)) :
    readClauses (cs.map (whenSection level) ++ rest) =
      (readClauses rest).map (cs.map (whenClause (level + 1)) ++ ·) := by
  induction cs with
  | nil => simp
  | cons a cs ih =>
    rw [List.map_cons, List.cons_append, whenSection, readClauses, Line.read_when]
    dsimp only
    rw [decimal?_toString, Option.bind_some, ih, Option.map_map]
    rfl

theorem lt_level_of_mem_elseRows {variadic : Option Overload} {r : Row}
    (hr : r ∈ elseRows (level + 1) variadic) : level < r.level := by
  cases variadic with
  | none =>
    rw [List.mem_singleton.mp hr]
    exact Nat.lt_succ_self level
  | some a => exact lt_level_of_mem_overloadRows hr

variable {s : Overloads}

theorem heads_caseSections : ∀ part ∈ caseSections level s, Heads level part := by
  refine List.forall_mem_cons.mpr ⟨⟨Nat.le_refl _, List.forall_mem_nil _⟩,
    List.forall_mem_append.mpr ⟨fun part hpart => ?_, List.forall_mem_cons.mpr ⟨?_,
      List.forall_mem_singleton.mpr ⟨Nat.le_refl _, List.forall_mem_nil _⟩⟩⟩⟩
  · obtain ⟨a, -, rfl⟩ := List.mem_map.mp hpart
    exact ⟨Nat.le_refl _, fun _ => lt_level_of_mem_overloadRows⟩
  · exact ⟨Nat.le_refl _, fun _ => lt_level_of_mem_elseRows level⟩

theorem level_of_mem_caseSections {part : Row × List Row} (h : part ∈ caseSections level s) :
    part.1.level = level := by
  rcases List.mem_cons.mp h with rfl | h
  · rfl
  rcases List.mem_append.mp h with h | h
  · obtain ⟨a, -, rfl⟩ := List.mem_map.mp h
    rfl
  · rcases List.mem_cons.mp h with rfl | h
    · rfl
    · rw [List.mem_singleton.mp h]

theorem heads_initializeSections : ∀ part ∈ initializeSections level s, Heads level part := by
  refine List.forall_mem_cons.mpr ⟨⟨Nat.le_refl _, fun r hr => ?_⟩,
    List.forall_mem_singleton.mpr ⟨Nat.le_refl _, List.forall_mem_nil _⟩⟩
  obtain ⟨part, hpart, hr⟩ := List.mem_flatMap.mp hr
  rcases List.mem_cons.mp hr with rfl | hr
  · rw [level_of_mem_caseSections _ hpart]
    exact Nat.lt_succ_self level
  · exact Nat.lt_of_succ_lt ((heads_caseSections _ part hpart).deeper r hr)

theorem readInitialize_sections :
    readInitialize level (flattenSections (initializeSections level s)) =
      some (s.fixed.map (whenClause (level + 2)) ++ [⟨none, elseRows (level + 2) s.variadic⟩]) := by
  have hcase : readCase (level + 1) (flattenSections (caseSections (level + 1) s)) =
      readClauses (s.fixed.map (whenSection (level + 1)) ++ lastSections (level + 1) s.variadic) := by
    rw [readCase, sections_flattenSections (heads_caseSections (level + 1))]
    rfl
  have hlast : readClauses (lastSections (level + 1) s.variadic) =
      some [⟨none, elseRows (level + 2) s.variadic⟩] := by
    simp [lastSections, readClauses]
  rw [readInitialize, sections_flattenSections (heads_initializeSections level), initializeSections]
  dsimp only
  rw [if_pos ⟨rfl, rfl⟩, hcase, readClauses_whens, hlast]
  rfl

end

/-! ## Dispatches -/

/-- The clause is for the arguments of a constructor. It binds every parameter to the argument of its
place, and behind that it has the lines that set up the fields and the statements of the constructor. -/
structure Clause.Runs (o : Options) (m : Module) (level : Nat) (c : Constructor) (clause : Clause) :
    Prop where
  count : clause.count = countOf c
  rows : ∃ source stmts lines, c.body.stmts = some source ∧
    Flow.normalize o.closure source = .ok stmts ∧
    List.Forall₂ InitStep.Writes (m.initPlan c.invocation) lines ∧
    clause.rows = (bindings c.params).flatMap (fun b => textRows level false b.text) ++
      lines.flatMap (textRows level false) ++ Layout.rowsAll level [] (bodyLayout o.comments stmts)
  /-- There are as many arguments as the clause is for, or only the last parameter is variadic; no
  declaration has a variadic one anywhere else. -/
  binds : ∀ (V : Type) (args : List V),
    (clause.count = some args.length ∨ ∀ p ∈ c.params.dropLast, p.variadic = false) →
      (bindings c.params).flatMap (·.run args) =
        c.params.mapIdx fun place p => (p.name, argument args c.params.length place p)

/-- One clause for each constructor that does not end in a variadic parameter, in order, and a last one
for the constructor that does, if there is one. -/
structure Dispatches (o : Options) (m : Module) (level : Nat) (whens : List Clause)
    (otherwise : Clause) : Prop where
  fixed : List.Forall₂ (Clause.Runs o m level) (m.constructors.filter (!endsVariadic ·)) whens
  distinct : (whens.map Clause.count).Nodup
  last : otherwise.count = none ∧
    (m.constructors.filter endsVariadic = [] ∧ otherwise.rows = [⟨level, wrongCount, false⟩] ∨
      ∃ c, m.constructors.filter endsVariadic = [c] ∧ otherwise.Runs o m level c)
  /-- Every constructor is in one clause. -/
  complete : ∃ order clauses, order.Perm m.constructors ∧ clauses.Sublist (whens ++ [otherwise]) ∧
    List.Forall₂ (Clause.Runs o m level) order clauses
  /-- One clause applies to every number of arguments. -/
  unique : ∀ given, ∃ clause, (whens ++ [otherwise]).filter
    (Clause.applies (whens ++ [otherwise]) given) = [clause]

section

variable {o : Options} {m : Module} {level : Nat}

theorem countOf_of_isVariadic {c : Constructor} (h : isVariadic c = true) : countOf c = none :=
  if_pos h

theorem countOf_of_not_isVariadic {c : Constructor} (h : isVariadic c = false) :
    countOf c = some c.params.length :=
  if_neg (Bool.eq_false_iff.mp h)

/-- The rows of a body: the lines of the plan, and the statements. -/
theorem rowsAll_constructorBodyLayout (o : Options) (m : Module) (c : Constructor)
    (stmts : List Flow.Stmt) (level : Nat) :
    Layout.rowsAll level [] (constructorBodyLayout o m c stmts) =
      ((m.initPlan c.invocation).map InitStep.line).flatMap (textRows level false) ++
        Layout.rowsAll level [] (bodyLayout o.comments stmts) := by
  rw [Layout.rowsAll_eq_flatMap (gaplessAll_constructorBodyLayout o m c stmts),
    constructorBodyLayout, List.flatMap_append,
    ← Layout.rowsAll_eq_flatMap (gaplessAll_map_line InitStep.line _), rowsAll_map_line,
    ← Layout.rowsAll_eq_flatMap (gaplessAll_bodyLayout o.comments stmts), List.flatMap_map]

theorem runs_of_overloadOf {a : Overload} (h : overloadOf o m a.1 = .ok a) :
    Clause.Runs o m level a.1 ⟨countOf a.1, overloadRows level a⟩ := by
  obtain ⟨stmts, hstmts, ha⟩ := overloadOf_eq_ok.mp h
  obtain ⟨source, hsource, hstmts⟩ := normalizedBody_eq_ok.mp hstmts
  refine ⟨rfl, ⟨source, stmts, _, hsource, hstmts, forall₂_writes_line m a.1.invocation, ?_⟩,
    fun V args hfits => run_bindings args ?_⟩
  · have hbody : a.2 = constructorBodyLayout o m a.1 stmts := congrArg Prod.snd ha
    rw [overloadRows, hbody, rowsAll_constructorBodyLayout, List.append_assoc]
  · rcases hfits with hcount | hlast
    · cases hvariadic : isVariadic a.1 with
      | true =>
        rw [countOf_of_isVariadic hvariadic] at hcount
        cases hcount
      | false =>
        rw [countOf_of_not_isVariadic hvariadic] at hcount
        exact .inr (Option.some.inj hcount).symm
    · exact .inl hlast

/-- Constructors that do not overlap are for different numbers of arguments. -/
theorem nodup_countOf {constructors : List Constructor}
    (h : constructors.Pairwise fun c d => ¬ Overlap c d) : (constructors.map countOf).Nodup :=
  List.pairwise_map.mpr (h.imp fun hover heq => hover (overlap_iff.mpr heq))

variable {cs : List Overload} {s : Overloads}

section

variable (hconstructors : cs.map Prod.fst = m.constructors) (hs : s.Holds cs)

include hconstructors hs

theorem filter_not_endsVariadic :
    m.constructors.filter (!endsVariadic ·) = s.fixed.map Prod.fst := by
  rw [← hconstructors, List.filter_map, hs.fixed]
  rfl

theorem filter_endsVariadic :
    m.constructors.filter endsVariadic = s.variadic.toList.map Prod.fst := by
  rw [← hconstructors, List.filter_map, hs.variadic]
  rfl

theorem runs_whenClauses (hcs : ∀ a ∈ cs, overloadOf o m a.1 = .ok a) (level : Nat) :
    List.Forall₂ (Clause.Runs o m level) (m.constructors.filter (!endsVariadic ·))
      (s.fixed.map (whenClause level)) := by
  rw [filter_not_endsVariadic hconstructors hs, List.forall₂_map_left_iff,
    List.forall₂_map_right_iff, List.forall₂_same]
  intro a ha
  rw [hs.fixed] at ha
  obtain ⟨ha, hnot⟩ := List.mem_filter.mp ha
  rw [whenClause, ← countOf_of_not_isVariadic (by simpa using hnot)]
  exact runs_of_overloadOf (hcs a ha)

/-- The last clause raises, or is that of the constructor that ends in a variadic parameter. -/
theorem runs_elseRows (hcs : ∀ a ∈ cs, overloadOf o m a.1 = .ok a) (level : Nat) :
    m.constructors.filter endsVariadic = [] ∧
        elseRows level s.variadic = [⟨level, wrongCount, false⟩] ∨
      ∃ c, m.constructors.filter endsVariadic = [c] ∧
        Clause.Runs o m level c ⟨none, elseRows level s.variadic⟩ := by
  rw [filter_endsVariadic hconstructors hs]
  cases hvariadic : s.variadic with
  | none => exact .inl ⟨rfl, rfl⟩
  | some a =>
    have ha : a ∈ cs.filter fun c => isVariadic c.1 := by
      rw [← hs.variadic, hvariadic]
      exact List.mem_singleton_self a
    obtain ⟨ha, hends⟩ := List.mem_filter.mp ha
    refine .inr ⟨a.1, rfl, ?_⟩
    rw [← countOf_of_isVariadic hends]
    exact runs_of_overloadOf (hcs a ha)

theorem nodup_count_whenClauses (hapart : m.constructors.Pairwise fun c d => ¬ Overlap c d)
    (level : Nat) : ((s.fixed.map (whenClause level)).map Clause.count).Nodup := by
  have hcount : (s.fixed.map (whenClause level)).map Clause.count =
      (m.constructors.filter (!endsVariadic ·)).map countOf := by
    rw [filter_not_endsVariadic hconstructors hs, List.map_map, List.map_map]
    refine List.map_congr_left fun a ha => ?_
    rw [hs.fixed] at ha
    have hnot := (List.mem_filter.mp ha).2
    exact (countOf_of_not_isVariadic (by simpa using hnot)).symm
  rw [hcount]
  exact (nodup_countOf hapart).sublist (List.filter_sublist.map _)

theorem dispatches_of_holds (hcs : ∀ a ∈ cs, overloadOf o m a.1 = .ok a)
    (hapart : m.constructors.Pairwise fun c d => ¬ Overlap c d) :
    Dispatches o m level (s.fixed.map (whenClause level)) ⟨none, elseRows level s.variadic⟩ := by
  have hwhens := runs_whenClauses hconstructors hs hcs level
  have hlast := runs_elseRows hconstructors hs hcs level
  have hdistinct := nodup_count_whenClauses hconstructors hs hapart level
  have hcount : ∀ clause ∈ s.fixed.map (whenClause level), clause.count ≠ none :=
    fun clause hclause => by
      obtain ⟨a, -, rfl⟩ := List.mem_map.mp hclause
      exact Option.some_ne_none a.1.params.length
  refine ⟨hwhens, hdistinct, ⟨rfl, hlast⟩, ?_, exists_filter_applies hdistinct hcount rfl⟩
  have hperm : (m.constructors.filter (!endsVariadic ·) ++ m.constructors.filter endsVariadic).Perm
      m.constructors :=
    List.perm_append_comm.trans (List.filter_append_perm endsVariadic m.constructors)
  rcases hlast with ⟨hnil, -⟩ | ⟨c, hc, hruns⟩
  · rw [hnil, List.append_nil] at hperm
    exact ⟨_, _, hperm, List.sublist_append_left _ _, hwhens⟩
  · rw [hc] at hperm
    exact ⟨_, _, hperm, List.Sublist.refl _, List.rel_append hwhens (.cons hruns .nil)⟩

end

theorem gapless_of_holds (hs : s.Holds cs) (hcs : ∀ a ∈ cs, overloadOf o m a.1 = .ok a) :
    s.Gapless := by
  constructor
  · intro a ha
    rw [hs.fixed] at ha
    exact gaplessAll_of_overloadOf (hcs a (List.mem_of_mem_filter ha))
  · intro a ha
    have hmem := Option.mem_toList.mpr ha
    rw [hs.variadic] at hmem
    exact gaplessAll_of_overloadOf (hcs a (List.mem_of_mem_filter hmem))

/-- Two or more constructors are collected, and then dispatched. -/
theorem takeConstructors_of_two_le (htwo : 2 ≤ m.constructors.length)
    (h : m.constructors.mapM (overloadOf o m) = .ok cs) : takeConstructors o m =
      (fun s => ([dispatchLayout o m.constructors s],
        { m with constructors := m.constructors.map Constructor.taken })) <$>
          cs.foldlM (Overloads.add m.name) {} := by
  have hfst := fst_of_mapM_overloadOf h
  have hone : cs.length ≠ 1 := by
    rw [← List.length_map (f := Prod.fst), hfst]
    omega
  have hempty : m.constructors.isEmpty = false := by
    cases hm : m.constructors with
    | nil => rw [hm] at htwo; cases htwo
    | cons => rfl
  rw [takeConstructors_eq, constructorsSection_eq hempty, h]
  show _ <$> _ <$> arrangedLayout o m.name cs = _
  rw [arrangedLayout_of_length_ne_one hone, hfst]
  cases cs.foldlM (Overloads.add m.name) {} <;> rfl

end

/-- **Constructors are told apart or rejected.** Two or more constructors whose bodies normalise are
unsupported iff two of them overlap. Otherwise `initialize` is written, behind their comments, and has
one clause for each of them that is for one number of arguments, in order, and a last one for all other
numbers, so that exactly one applies. -/
theorem takeConstructors_dispatches (o : Options) (m : Module) (htwo : 2 ≤ m.constructors.length)
    (hbodies : ∀ c ∈ m.constructors, ∃ source stmts, c.body.stmts = some source ∧
      Flow.normalize o.closure source = .ok stmts) :
    ((∃ construct, takeConstructors o m = .error (.unsupported construct)) ↔
      Ambiguous m.constructors) ∧
    (¬ Ambiguous m.constructors → ∃ lines rest, takeConstructors o m = .ok ([lines], rest) ∧
      ∀ e : Emitter, e.newline = "\n" → ∃ before rows whens otherwise,
        (∀ r ∈ before, r.comment = true) ∧
        Layout.writeAll lines e = e.append (writeRows e.indentWidth (before ++ rows)) ∧
        readInitialize e.level rows = some (whens ++ [otherwise]) ∧
        Dispatches o m (e.level + 2) whens otherwise) := by
  obtain ⟨cs, hmap, hcs⟩ := exists_overloads (m := m) hbodies
  have hfst := fst_of_mapM_overloadOf hmap
  have hambiguous : (∀ b ∈ ([] : List Overload), ∀ c ∈ cs, ¬ Overlap b.1 c.1) ∧
      cs.Pairwise (fun c d => ¬ Overlap c.1 d.1) ↔ ¬ Ambiguous m.constructors := by
    rw [not_ambiguous_iff, ← hfst, List.pairwise_map]
    exact and_iff_right (List.forall_mem_nil _)
  rw [takeConstructors_of_two_le htwo hmap]
  rcases foldlM_add_cases holds_empty m.name cs with
    ⟨hover, construct, hadd⟩ | ⟨hapart, s, hadd, hs⟩
  · rw [hambiguous, not_not] at hover
    rw [hadd]
    exact ⟨⟨fun _ => hover, fun _ => ⟨construct, rfl⟩⟩, fun hno => absurd hover hno⟩
  · rw [hambiguous] at hapart
    rw [hadd]
    refine ⟨⟨?_, fun hover => absurd hover hapart⟩, fun _ => ⟨_, _, rfl, fun e hnew => ?_⟩⟩
    · rintro ⟨construct, herror⟩
      cases herror
    · have hgap := gapless_of_holds hs hcs
      refine ⟨Layout.rowsAll e.level [] (remarks o m.constructors),
        flattenSections (initializeSections e.level s), _, _, fun r => comment_of_mem_remarks, ?_,
        readInitialize_sections e.level,
        dispatches_of_holds hfst hs hcs (not_ambiguous_iff.mp hapart)⟩
      rw [Layout.writeAll_eq_append (gaplessAll_dispatchLayout hgap o m.constructors) hnew,
        rowsAll_dispatchLayout hgap]

/-- A class with constructors for no arguments, for two, and for one or more. -/
def parcel : Module :=
  { kind := .topClass, name := "Parcel", owner := {}
    fields := [⟨"size", .primitive .int, some "7", []⟩]
    constructors :=
      [⟨[], [], .this "(1, 2)", .of [], [], false, ["empty"]⟩,
        ⟨[⟨"w", .primitive .int, false⟩, ⟨"h", .primitive .int, false⟩], [], .none,
          .of [.other "@size = w * h"], [], false, []⟩,
        ⟨[⟨"w", .primitive .int, false⟩, ⟨"more", .array (.primitive .int), true⟩], [], .none,
          .of [.other "@size = w"], [], false, []⟩] }

theorem takeConstructors_dispatches_parcel : ¬ Ambiguous parcel.constructors ∧
    ∃ lines rest, takeConstructors {} parcel = .ok ([lines], rest) ∧ ∃ before rows whens otherwise,
      (∀ r ∈ before, r.comment = true) ∧
      Layout.writeAll lines { level := 1 } =
        Emitter.append { level := 1 } (writeRows 2 (before ++ rows)) ∧
      readInitialize 1 rows = some (whens ++ [otherwise]) ∧
      Dispatches {} parcel 3 whens otherwise := by
  have hambiguous : ¬ Ambiguous parcel.constructors := not_ambiguous_iff.mpr (by decide)
  have hbodies : ∀ c ∈ parcel.constructors, ∃ source stmts, c.body.stmts = some source ∧
      Flow.normalize .compatible source = .ok stmts := by
    simp only [parcel, List.forall_mem_cons]
    exact ⟨⟨_, _, rfl, rfl⟩, ⟨_, _, rfl, rfl⟩, ⟨_, _, rfl, rfl⟩, List.forall_mem_nil _⟩
  obtain ⟨lines, rest, hlines, hwrites⟩ :=
    (takeConstructors_dispatches {} parcel (by decide) hbodies).2 hambiguous
  exact ⟨hambiguous, lines, rest, hlines, hwrites { level := 1 } rfl⟩

end Ruby

end Rubify
