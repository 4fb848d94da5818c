import Rubify.Proofs.Flow.NormalForm
import Rubify.Proofs.Output.Splicing
import Rubify.Proofs.Ruby.Line

/-!
# Reading statements back

The lines of statements are read by a machine that keeps the statements that are open on a stack
(`BlockReader`). A line opens a statement, begins another part of the innermost one, closes that, or is a
statement of its own; how deep it is indented plays no part.

What can be read back of a body is its `plain` form: blocks are spliced into what stands around them,
comments are gone, and the labels of a branch are one text. Reading the lines of a body adds its plain
form to what has been read and leaves the stack alone (`reads_body`), by induction along the layouts.

Headline:
* **`parseText_written`**: the lines of a normalised body, at any level, are read back as its plain
  form.
-/

namespace Rubify.Ruby

open Rubify.Flow Text

/-! ## Plain statements -/

/-- The labels of a branch with the values joined into one text. -/
def joined (labels : List CaseLabel) : List CaseLabel :=
  if (values labels).isEmpty then labels else [.value (", ".intercalate (values labels))]

mutual

/-- A statement without blocks and comments. -/
def plain : Stmt → List Stmt
  | .comment _ => []
  | .block body => plainAll body
  | .ifThen condition thenBranch elseBranch =>
    [.ifThen condition (plainAll thenBranch) (plainElse elseBranch)]
  | .loop condition body => [.loop condition (plainAll body)]
  | .labeled label body => [.labeled label (plainAll body)]
  | .case value branches => [.case value (plainBranches branches)]
  | .other text => [.other text]
  | .leave label => [.leave label]
  | .return value => [.return value]
  | .raise value => [.raise value]

/-- A body without blocks and comments. -/
def plainAll : List Stmt → List Stmt
  | [] => []
  | s :: rest => plain s ++ plainAll rest

/-- An `else` branch without blocks and comments. -/
def plainElse : Option (List Stmt) → Option (List Stmt)
  | none => none
  | some body => some (plainAll body)

/-- Branches without blocks and comments, their labels joined. -/
def plainBranches : List (Branch Stmt) → List (Branch Stmt)
  | [] => []
  | ⟨labels, closed, body⟩ :: rest => ⟨joined labels, closed, plainAll body⟩ :: plainBranches rest

end

/-! ## The reader -/

/-- A statement that is open, with the parts of it that are finished. -/
inductive Open
  /-- Behind an `if` or `elsif`, with the conditions and branches in front of it. -/
  | chain (arms : List (String × List Stmt)) (condition : String)
  /-- Behind the `else` of an `if`. -/
  | last (arms : List (String × List Stmt))
  | loop (condition : String)
  | labeled (label : String)
  /-- In a `case`, behind a label if there is one yet. -/
  | select (value : String) (branches : List (Branch Stmt)) (label : Option CaseLabel)

/-- Conditions and their branches, each in the `else` branch of the one in front of it. -/
def nested : List (String × List Stmt) → Option (List Stmt) → Option (List Stmt)
  | [], elseBranch => elseBranch
  | (condition, body) :: arms, elseBranch =>
    some [.ifThen condition body (nested arms elseBranch)]

/-- The branch behind a label, if there is one. -/
def finished (label : Option CaseLabel) (body : List Stmt) : List (Branch Stmt) :=
  label.toList.map fun label => ⟨[label], true, body⟩

namespace Open

/-- Whether statements can stand here; behind a `case` there has to be a label first. -/
def holds : Open → Bool
  | .select _ _ none => false
  | _ => true

/-- Begins another part, after `body`. Nothing but the end can stand behind an `else`. -/
def divide (body : List Stmt) : Open → Line → Option Open
  | .chain arms condition, .elsif next => some (.chain (arms ++ [(condition, body)]) next)
  | .chain arms condition, .otherwise => some (.last (arms ++ [(condition, body)]))
  | .select value branches label, .when labels =>
    if label = some .otherwise then none
    else some (.select value (branches ++ finished label body) (some (.value labels)))
  | .select value branches label, .otherwise =>
    if label = some .otherwise then none
    else some (.select value (branches ++ finished label body) (some .otherwise))
  | _, _ => none

/-- The statement, closed after `body`. -/
def close (body : List Stmt) : Open → List Stmt
  | .chain arms condition => (nested (arms ++ [(condition, body)]) none).getD []
  | .last arms => (nested arms (some body)).getD []
  | .loop condition => [.loop condition body]
  | .labeled label => [.labeled label body]
  | .select value branches label => [.case value (branches ++ finished label body)]

end Open

/-- The statements of the innermost body so far, and what is open around it: each open statement with
the statements in front of it. -/
structure BlockReader where
  body : List Stmt := []
  stack : List (Open × List Stmt) := []

namespace BlockReader

/-- Whether statements can stand here. -/
def takes (p : BlockReader) : Bool :=
  p.stack.head?.all fun frame => frame.1.holds

/-- Statements behind those of the innermost body. -/
def add (p : BlockReader) (stmts : List Stmt) : BlockReader :=
  { p with body := p.body ++ stmts }

/-- Opens a statement. -/
def enter (p : BlockReader) (o : Open) : BlockReader :=
  ⟨[], (o, p.body) :: p.stack⟩

/-- Takes a line. -/
def step (p : BlockReader) : Line → Option BlockReader
  | .stmt s => if p.takes then some (p.add [s]) else none
  | .opensIf condition => if p.takes then some (p.enter (.chain [] condition)) else none
  | .opensLoop condition => if p.takes then some (p.enter (.loop condition)) else none
  | .opensCatch label => if p.takes then some (p.enter (.labeled label)) else none
  | .opensCase value => if p.takes then some (p.enter (.select value [] none)) else none
  | .closes =>
    match p.stack with
    | [] => none
    | (o, before) :: rest => some ⟨before ++ o.close p.body, rest⟩
  | line =>
    match p.stack with
    | [] => none
    | (o, before) :: rest => (o.divide p.body line).map fun o => ⟨[], (o, before) :: rest⟩

/-- Takes lines one after another. -/
def run (p : BlockReader) : List String → Option BlockReader
  | [] => some p
  | line :: rest => (p.step (.read line)).bind fun p => p.run rest

end BlockReader

/-- The statements that lines consist of; nothing may be left open. -/
def parseLines (lines : List String) : Option (List Stmt) :=
  (BlockReader.run {} lines).bind fun p => if p.stack.isEmpty then some p.body else none

/-- The statements that a text consists of. -/
def parseText (text : String) : Option (List Stmt) :=
  parseLines ((lines text).map trim)

/-! ## Reading what has been written

One lemma for each form of statement, `else` branch and branch, from what is known of its parts. -/

namespace BlockReader

theorem run_cons (p : BlockReader) (line : String) (rest : List String) :
    p.run (line :: rest) = (p.step (.read line)).bind fun p => p.run rest := rfl

theorem run_append (p : BlockReader) (xs ys : List String) :
    p.run (xs ++ ys) = (p.run xs).bind fun p => p.run ys := by
  induction xs generalizing p with
  | nil => rfl
  | cons line xs ih =>
    rw [List.cons_append, run_cons, run_cons, Option.bind_assoc]
    exact Option.bind_congr fun p _ => ih p

theorem run_end (o : Open) (body before : List Stmt) (rest : List (Open × List Stmt)) :
    run ⟨body, (o, before) :: rest⟩ ["end"] = some ⟨before ++ o.close body, rest⟩ := by
  simp [run, step]

theorem add_nil (p : BlockReader) : p.add [] = p := by
  simp [add]

theorem add_add (p : BlockReader) (xs ys : List Stmt) : (p.add xs).add ys = p.add (xs ++ ys) := by
  simp [add]

end BlockReader

open BlockReader

/-- The lines of a statement add it in its plain form. -/
def ReadsStmt (s : Stmt) : Prop :=
  ∀ p : BlockReader, p.takes = true →
    p.run (Layout.textsAll (stmtLayout false s)) = some (p.add (plain s))

/-- The lines of a body add it in its plain form. -/
def Reads (body : List Stmt) : Prop :=
  ∀ p : BlockReader, p.takes = true →
    p.run (Layout.textsAll (bodyLayout false body)) = some (p.add (plainAll body))

/-- The lines of an `else` branch and the end of its `if` close all of the chain. -/
def ReadsElse (branch : Option (List Stmt)) : Prop :=
  ∀ arms condition body before rest,
    run ⟨body, (.chain arms condition, before) :: rest⟩
        (Layout.textsAll (elseLayout false branch) ++ ["end"]) =
      some ⟨before ++ (nested (arms ++ [(condition, body)]) (plainElse branch)).getD [], rest⟩

/-- The lines of the last branches of a `case` and its end close it. -/
def ReadsBranches (branches : List (Branch Stmt)) : Prop :=
  ∀ value done label body before rest, (branches ≠ [] → label ≠ some .otherwise) →
    run ⟨body, (.select value done label, before) :: rest⟩
        (Layout.textsAll (branchesLayout false branches) ++ ["end"]) =
      some ⟨before ++ [.case value (done ++ finished label body ++ plainBranches branches)], rest⟩

section

variable {s : Stmt} {rest body thenBranch : List Stmt} {elseBranch : Option (List Stmt)}
  {branches : List (Branch Stmt)}

theorem reads_nil : Reads [] :=
  fun p _ => congrArg some p.add_nil.symm

theorem reads_cons (hs : ReadsStmt s) (hrest : Reads rest) : Reads (s :: rest) := by
  intro p hp
  have hadd : (p.add (plain s)).takes = true := hp
  rw [bodyLayout, Layout.textsAll_append, run_append, hs p hp, Option.bind_some, hrest _ hadd,
    add_add, plainAll]

/-- A body behind the line in front of it. -/
theorem run_part {p q : BlockReader} {line : String} (hline : p.step (.read line) = some q)
    (hq : q.takes = true) (h : Reads body) (more : List String) :
    p.run (line :: (Layout.textsAll (bodyLayout false body) ++ more)) =
      (q.add (plainAll body)).run more := by
  rw [run_cons, hline, Option.bind_some, run_append, h q hq, Option.bind_some]

/-- A statement of one line. -/
theorem readsStmt_line {text : String} (hlayout : stmtLayout false s = [.line text])
    (hread : Line.read text = .stmt s) (hplain : plain s = [s]) : ReadsStmt s := by
  intro p hp
  rw [hlayout, hplain]
  simp [Layout.textsAll, Layout.texts, run, step, hread, hp]

theorem readsStmt_comment (text : String) : ReadsStmt (.comment text) :=
  fun p _ => congrArg some p.add_nil.symm

theorem readsStmt_block (h : Reads body) : ReadsStmt (.block body) := by
  intro p hp
  rw [stmtLayout, plain]
  exact h p hp

theorem readsStmt_loop (condition : String) (h : Reads body) : ReadsStmt (.loop condition body) := by
  intro p hp
  have hline : p.step (.read ("while " ++ condition)) = some (p.enter (.loop condition)) := by
    simp [step, hp]
  have hlines : Layout.textsAll (stmtLayout false (.loop condition body)) =
      ("while " ++ condition) :: (Layout.textsAll (bodyLayout false body) ++ ["end"]) := by
    simp [stmtLayout, Layout.textsAll, Layout.texts]
  rw [hlines, run_part hline rfl h, plain]
  exact run_end ..

theorem readsStmt_labeled (label : String) (h : Reads body) : ReadsStmt (.labeled label body) := by
  intro p hp
  have hline : p.step (.read ("catch(" ++ breakTag label ++ ") do")) =
      some (p.enter (.labeled label)) := by
    simp [step, hp]
  have hlines : Layout.textsAll (stmtLayout false (.labeled label body)) =
      ("catch(" ++ breakTag label ++ ") do") ::
        (Layout.textsAll (bodyLayout false body) ++ ["end"]) := by
    simp [stmtLayout, Layout.textsAll, Layout.texts]
  rw [hlines, run_part hline rfl h, plain]
  exact run_end ..

theorem readsStmt_ifThen (condition : String) (hthen : Reads thenBranch)
    (helse : ReadsElse elseBranch) : ReadsStmt (.ifThen condition thenBranch elseBranch) := by
  intro p hp
  have hline : p.step (.read ("if " ++ condition)) = some (p.enter (.chain [] condition)) := by
    simp [step, hp]
  have hlines : Layout.textsAll (stmtLayout false (.ifThen condition thenBranch elseBranch)) =
      ("if " ++ condition) :: (Layout.textsAll (bodyLayout false thenBranch) ++
        (Layout.textsAll (elseLayout false elseBranch) ++ ["end"])) := by
    simp [stmtLayout, Layout.textsAll, Layout.textsAll_append, Layout.texts]
  rw [hlines, run_part hline rfl hthen, plain]
  exact helse [] condition (plainAll thenBranch) p.body p.stack

theorem readsStmt_case (value : String) (h : ReadsBranches branches) :
    ReadsStmt (.case value branches) := by
  intro p hp
  have hline : p.step (.read ("case " ++ value)) = some (p.enter (.select value [] none)) := by
    simp [step, hp]
  have hlines : Layout.textsAll (stmtLayout false (.case value branches)) =
      ("case " ++ value) :: (Layout.textsAll (branchesLayout false branches) ++ ["end"]) := by
    simp [stmtLayout, Layout.textsAll, Layout.textsAll_append, Layout.texts]
  rw [hlines, run_cons, hline, plain]
  exact h value [] none [] p.body p.stack fun _ => (Option.some_ne_none _).symm

theorem readsElse_none : ReadsElse none := by
  intro arms condition body before rest
  exact run_end ..

theorem nested_append (arms more : List (String × List Stmt)) (elseBranch : Option (List Stmt)) :
    nested (arms ++ more) elseBranch = nested arms (nested more elseBranch) := by
  induction arms with
  | nil => rfl
  | cons arm arms ih => rw [List.cons_append, nested, nested, ih]

/-- An `if` that is all of an `else` branch continues the chain. -/
theorem readsElse_ifThen (next : String) (hthen : Reads thenBranch) (helse : ReadsElse elseBranch) :
    ReadsElse (some [.ifThen next thenBranch elseBranch]) := by
  intro arms condition body before rest
  have hline : step ⟨body, (.chain arms condition, before) :: rest⟩ (.read ("elsif " ++ next)) =
      some ⟨[], (.chain (arms ++ [(condition, body)]) next, before) :: rest⟩ := by
    simp [step, Open.divide]
  have hlines : Layout.textsAll (elseLayout false (some [.ifThen next thenBranch elseBranch])) ++
      ["end"] = ("elsif " ++ next) :: (Layout.textsAll (bodyLayout false thenBranch) ++
        (Layout.textsAll (elseLayout false elseBranch) ++ ["end"])) := by
    simp [elseLayout, Layout.textsAll, Layout.texts]
  have hplain : plainElse (some [.ifThen next thenBranch elseBranch]) =
      nested [(next, plainAll thenBranch)] (plainElse elseBranch) := by
    simp [plainElse, plainAll, plain, nested]
  rw [hlines, run_part hline rfl hthen, hplain, ← nested_append]
  exact helse _ next (plainAll thenBranch) before rest

/-- Any other `else` branch ends the chain. -/
theorem readsElse_some (h : Reads body) (hbody : ∀ condition thenBranch elseBranch,
    body ≠ [.ifThen condition thenBranch elseBranch]) : ReadsElse (some body) := by
  intro arms condition thenBranch before rest
  have hline : step ⟨thenBranch, (.chain arms condition, before) :: rest⟩ (.read "else") =
      some ⟨[], (.last (arms ++ [(condition, thenBranch)]), before) :: rest⟩ := by
    simp [step, Open.divide]
  have hlines : Layout.textsAll (elseLayout false (some body)) ++ ["end"] =
      "else" :: (Layout.textsAll (bodyLayout false body) ++ ["end"]) := by
    rw [elseLayout]
    · simp [Layout.textsAll, Layout.texts]
    · exact hbody
  rw [hlines, run_part hline rfl h, plainElse]
  exact run_end ..

theorem readsBranches_nil : ReadsBranches [] := by
  intro value done label body before rest _
  rw [plainBranches, List.append_nil]
  exact run_end ..

/-- The label of a branch in its plain form. -/
def branchLabel (labels : List CaseLabel) : CaseLabel :=
  if (values labels).isEmpty then .otherwise else .value (", ".intercalate (values labels))

theorem divide_branchLine (labels : List CaseLabel) {label : Option CaseLabel}
    (hlabel : label ≠ some .otherwise) (value : String) (done : List (Branch Stmt))
    (body before : List Stmt) (rest : List (Open × List Stmt)) :
    step ⟨body, (.select value done label, before) :: rest⟩ (.read (branchLine labels)) =
      some ⟨[], (.select value (done ++ finished label body) (some (branchLabel labels)), before) ::
        rest⟩ := by
  unfold branchLine branchLabel
  split <;> simp [step, Open.divide, hlabel]

/-- The branch is closed, and has values or is the last one with the default label alone. -/
def InPlace (b : Branch Stmt) (rest : List (Branch Stmt)) : Prop :=
  b.closed = true ∧ (values b.labels ≠ [] ∨ b.labels = [.otherwise] ∧ rest = [])

theorem readsBranches_cons {b : Branch Stmt} (hb : InPlace b branches) (hbody : Reads b.body)
    (h : ReadsBranches branches) : ReadsBranches (b :: branches) := by
  obtain ⟨labels, closed, inner⟩ := b
  obtain ⟨rfl, hlabels⟩ := hb
  intro value done label body before rest hlabel
  have hline := divide_branchLine labels (hlabel (List.cons_ne_nil _ _)) value done body before rest
  have hlines : Layout.textsAll (branchesLayout false (⟨labels, true, inner⟩ :: branches)) ++ ["end"] =
      branchLine labels :: (Layout.textsAll (bodyLayout false inner) ++
        (Layout.textsAll (branchesLayout false branches) ++ ["end"])) := by
    simp [branchesLayout, Layout.textsAll, Layout.texts]
  have hjoined : joined labels = [branchLabel labels] := by
    rcases hlabels with hvalues | ⟨rfl, -⟩
    · simp [joined, branchLabel, hvalues]
    · rfl
  have hnext : branches ≠ [] → some (branchLabel labels) ≠ some .otherwise := by
    rcases hlabels with hvalues | ⟨-, hlast⟩
    · simp [branchLabel, hvalues]
    · exact fun hne => absurd hlast hne
  have hrun := h value (done ++ finished label body) (some (branchLabel labels)) (plainAll inner)
    before rest hnext
  rw [List.append_assoc (done ++ finished label body)] at hrun
  rw [hlines, run_part hline rfl hbody, plainBranches, hjoined]
  exact hrun

end

/-! ## Whole bodies -/

/-- The statement holds of all statements of a body, at any depth. -/
def Everywhere (P : Stmt → Prop) (body : List Stmt) : Prop :=
  ∀ s, OccursVia Anywhere s body → P s

section

variable {P : Stmt → Prop} {s : Stmt} {rest : List Stmt}

theorem everywhere_nil : Everywhere P [] :=
  fun _ hs => absurd hs not_occursVia_nil

theorem everywhere_cons : Everywhere P (s :: rest) ↔
    P s ∧ (∀ body ∈ s.bodies, Everywhere P body) ∧ Everywhere P rest := by
  simp only [Everywhere, occursVia_cons]
  constructor
  · intro h
    exact ⟨h s (.inl rfl), fun body hbody t ht => h t (.inr (.inl ⟨body, hbody, trivial, ht⟩)),
      fun t ht => h t (.inr (.inr ht))⟩
  · rintro ⟨hs, hin, hrest⟩ t (rfl | ⟨body, hbody, -, ht⟩ | ht)
    · exact hs
    · exact hin body hbody t ht
    · exact hrest t ht

theorem Everywhere.head (h : Everywhere P (s :: rest)) : P s :=
  (everywhere_cons.mp h).1

theorem Everywhere.first (h : Everywhere P (s :: rest)) : Everywhere P [s] :=
  everywhere_cons.mpr ⟨h.head, (everywhere_cons.mp h).2.1, everywhere_nil⟩

theorem Everywhere.tail (h : Everywhere P (s :: rest)) : Everywhere P rest :=
  (everywhere_cons.mp h).2.2

theorem Everywhere.inside (h : Everywhere P [s]) {body : List Stmt} (hbody : body ∈ s.bodies) :
    Everywhere P body :=
  (everywhere_cons.mp h).2.1 body hbody

end

/-- The text is a line without blanks at its ends. -/
structure OneLine (text : String) : Prop where
  line : '\n' ∉ text.toList
  first : text.toList.head?.any (!whitespace.contains ·) = true
  last : text.toList.getLast?.any (!whitespace.contains ·) = true

theorem and_iff_oneLine (text : String) :
    ('\n' ∉ text.toList ∧ text.toList.head?.any (!whitespace.contains ·) = true ∧
      text.toList.getLast?.any (!whitespace.contains ·) = true) ↔ OneLine text :=
  ⟨fun ⟨hline, hfirst, hlast⟩ => ⟨hline, hfirst, hlast⟩, fun h => ⟨h.line, h.first, h.last⟩⟩

instance : DecidablePred OneLine := fun text => decidable_of_iff _ (and_iff_oneLine text)

/-- The texts of a statement are lines, and it is not an opaque one that begins with a keyword; the
statements inside it do not count. -/
def Legible : Stmt → Prop
  | .comment _ | .block _ | .leave none | .return none => True
  | .other text => OneLine text ∧ firstWord text ∉ Line.keywords
  | .ifThen text _ _ | .loop text _ | .labeled text _ | .leave (some text) | .return (some text)
  | .raise text => OneLine text
  | .case value branches => OneLine value ∧ ∀ b ∈ branches, ∀ text ∈ values b.labels, OneLine text

/-- The branches of a `case` stand as they are written. -/
def Ordered : List (Branch Stmt) → Prop
  | [] => True
  | b :: rest => InPlace b rest ∧ Ordered rest

/-- The statement is legible, and is a `case` only if its branches stand as they are written. -/
def Readable (s : Stmt) : Prop :=
  Legible s ∧ ∀ value branches, s = .case value branches → Ordered branches

/-- **The lines of a body are read as its plain form.** -/
theorem reads_body (body : List Stmt) : Everywhere Readable body → Reads body := by
  -- along the four functions that lay out statements, branches, bodies and `else` branches
  refine bodyLayout.induct (fun s => Everywhere Readable [s] → ReadsStmt s)
    (fun branches => (∀ b ∈ branches, Everywhere Readable b.body) → Ordered branches →
      ReadsBranches branches)
    (fun body => Everywhere Readable body → Reads body)
    (fun branch => (∀ body ∈ branch, Everywhere Readable body) → ReadsElse branch)
    (fun text _ => readsStmt_comment text)
    (fun text h => readsStmt_line rfl (Line.read_other h.head.1.2) rfl)
    (fun body ih h => readsStmt_block (ih (h.inside List.mem_cons_self)))
    (fun condition thenBranch elseBranch ihthen ihelse h => readsStmt_ifThen condition
      (ihthen (h.inside List.mem_cons_self))
      (ihelse fun body hbody => h.inside (List.mem_cons_of_mem _ (Option.mem_toList.mpr hbody))))
    (fun condition body ih h => readsStmt_loop condition (ih (h.inside List.mem_cons_self)))
    (fun label body ih h => readsStmt_labeled label (ih (h.inside List.mem_cons_self)))
    (fun value branches ih h => readsStmt_case value
      (ih (fun b hb => h.inside (List.mem_map_of_mem hb)) (h.head.2 value branches rfl)))
    (fun _ => readsStmt_line rfl Line.read_break rfl)
    (fun label _ => readsStmt_line rfl (Line.read_throw label) rfl)
    (fun _ => readsStmt_line rfl Line.read_return rfl)
    (fun value _ => readsStmt_line rfl (Line.read_return_value value) rfl)
    (fun value _ => readsStmt_line rfl (Line.read_raise value) rfl)
    (fun _ => reads_nil)
    (fun s rest ihs ihrest h => reads_cons (ihs h.first) (ihrest h.tail))
    (fun _ => readsElse_none)
    ?_ ?_ (fun _ _ => readsBranches_nil) ?_ body
  · intro condition thenBranch elseBranch ihthen ihelse h
    have h := h _ rfl
    exact readsElse_ifThen condition (ihthen (h.inside List.mem_cons_self))
      (ihelse fun body hbody => h.inside (List.mem_cons_of_mem _ (Option.mem_toList.mpr hbody)))
  · intro body hbody ih h
    exact readsElse_some (ih (h body rfl)) hbody
  · intro labels closed body rest ihbody ihrest h hordered
    obtain ⟨hb, hrest⟩ := List.forall_mem_cons.mp h
    exact readsBranches_cons hordered.1 (ihbody hb) (ihrest hrest hordered.2)

/-! ## Lines in a text -/

theorem oneLine_append {a b : String} (ha : '\n' ∉ a.toList)
    (hfirst : a.toList.head?.any (!whitespace.contains ·) = true) (hb : '\n' ∉ b.toList)
    (hlast : b.toList.getLast?.any (!whitespace.contains ·) = true) : OneLine (a ++ b) := by
  obtain ⟨first, hhead, hshown⟩ := (Option.any_eq_true ..).mp hfirst
  obtain ⟨last, htail, hends⟩ := (Option.any_eq_true ..).mp hlast
  refine ⟨?_, ?_, ?_⟩
  · rw [String.toList_append, List.mem_append]
    exact not_or.mpr ⟨ha, hb⟩
  · rw [String.toList_append, List.head?_append, hhead]
    exact hshown
  · rw [String.toList_append, List.getLast?_append, htail]
    exact hends

/-- A text behind a keyword. -/
theorem OneLine.behind {start text : String} (h : OneLine text) (hline : '\n' ∉ start.toList)
    (hfirst : start.toList.head?.any (!whitespace.contains ·) = true) : OneLine (start ++ text) :=
  oneLine_append hline hfirst h.line h.last

theorem oneLine_breakTag {label : String} (h : OneLine label) : OneLine (breakTag label) :=
  h.behind (by decide) (by decide)

theorem oneLine_catch {label : String} (h : OneLine label) :
    OneLine ("catch(" ++ breakTag label ++ ") do") := by
  have hopen : OneLine ("catch(" ++ breakTag label) :=
    (oneLine_breakTag h).behind (by decide) (by decide)
  exact oneLine_append hopen.line hopen.first (by decide) (by decide)

theorem oneLine_intercalate : ∀ {texts : List String}, texts ≠ [] → (∀ text ∈ texts, OneLine text) →
    OneLine (", ".intercalate texts)
  | [], hne, _ => absurd rfl hne
  | [text], _, h => by
    rw [String.intercalate_singleton]
    exact h text List.mem_cons_self
  | text :: next :: rest, _, h => by
    obtain ⟨htext, hrest⟩ := List.forall_mem_cons.mp h
    have hmore : OneLine (", " ++ ", ".intercalate (next :: rest)) :=
      (oneLine_intercalate (List.cons_ne_nil next rest) hrest).behind (by decide) (by decide)
    rw [String.intercalate_cons_cons, String.append_assoc]
    exact oneLine_append htext.line htext.first hmore.line hmore.last

theorem oneLine_branchLine {labels : List CaseLabel} (h : ∀ text ∈ values labels, OneLine text) :
    OneLine (branchLine labels) := by
  unfold branchLine
  split
  · decide
  · rename_i hvalues
    exact (oneLine_intercalate (by simpa using hvalues) h).behind (by decide) (by decide)

/-- Layouts of lines and deeper lines, and nothing else. -/
inductive LinesOf : List Layout → Prop
  | nil : LinesOf []
  | line {text : String} {ls : List Layout} (htext : OneLine text) (h : LinesOf ls) :
    LinesOf (.line text :: ls)
  | indented {body ls : List Layout} (hbody : LinesOf body) (h : LinesOf ls) :
    LinesOf (.indented body :: ls)

theorem LinesOf.append {ls more : List Layout} (h : LinesOf ls) (hmore : LinesOf more) :
    LinesOf (ls ++ more) := by
  induction h with
  | nil => exact hmore
  | line htext _ ih => exact .line htext ih
  | indented hbody _ _ ih => exact .indented hbody ih

theorem linesOf_end : LinesOf [.line "end"] :=
  .line (by decide) .nil

/-- The lines of a legible body. -/
theorem linesOf_bodyLayout (body : List Stmt) :
    Everywhere Legible body → LinesOf (bodyLayout false body) := by
  refine bodyLayout.induct (fun s => Everywhere Legible [s] → LinesOf (stmtLayout false s))
    (fun branches => (∀ b ∈ branches, Everywhere Legible b.body) →
      (∀ b ∈ branches, ∀ text ∈ values b.labels, OneLine text) →
        LinesOf (branchesLayout false branches))
    (fun body => Everywhere Legible body → LinesOf (bodyLayout false body))
    (fun branch => (∀ body ∈ branch, Everywhere Legible body) → LinesOf (elseLayout false branch))
    (fun _ _ => .nil)
    (fun text h => .line h.head.1 .nil)
    (fun body ih h => ih (h.inside List.mem_cons_self))
    (fun condition thenBranch elseBranch ihthen ihelse h =>
      .line (h.head.behind (by decide) (by decide))
        (.indented (ihthen (h.inside List.mem_cons_self))
          (.append (ihelse fun body hbody =>
            h.inside (List.mem_cons_of_mem _ (Option.mem_toList.mpr hbody))) linesOf_end)))
    (fun condition body ih h => .line (h.head.behind (by decide) (by decide))
      (.indented (ih (h.inside List.mem_cons_self)) linesOf_end))
    (fun label body ih h => .line (oneLine_catch h.head)
      (.indented (ih (h.inside List.mem_cons_self)) linesOf_end))
    (fun value branches ih h => .line (h.head.1.behind (by decide) (by decide))
      (.append (ih (fun b hb => h.inside (List.mem_map_of_mem hb)) h.head.2) linesOf_end))
    (fun _ => .line (by decide) .nil)
    (fun label h => .line ((oneLine_breakTag h.head).behind (by decide) (by decide)) .nil)
    (fun _ => .line (by decide) .nil)
    (fun value h => .line (h.head.behind (by decide) (by decide)) .nil)
    (fun value h => .line (h.head.behind (by decide) (by decide)) .nil)
    (fun _ => .nil)
    (fun s rest ihs ihrest h => (ihs h.first).append (ihrest h.tail))
    (fun _ => .nil)
    ?_ ?_ (fun _ _ => .nil) ?_ body
  · intro condition thenBranch elseBranch ihthen ihelse h
    have h := h _ rfl
    exact .line (h.head.behind (by decide) (by decide))
      (.indented (ihthen (h.inside List.mem_cons_self))
        (ihelse fun body hbody => h.inside (List.mem_cons_of_mem _ (Option.mem_toList.mpr hbody))))
  · intro body hbody ih h
    rw [elseLayout]
    · exact .line (by decide) (.indented (ih (h body rfl)) .nil)
    · exact hbody
  · intro labels closed body rest ihbody ihrest h hlabels
    obtain ⟨hb, hrest⟩ := List.forall_mem_cons.mp h
    obtain ⟨hlabel, hmore⟩ := List.forall_mem_cons.mp hlabels
    exact .line (oneLine_branchLine hlabel) (.indented (ihbody hb) (ihrest hrest hmore))

/-! ## The lines in the text -/

/-- Rows with what ends each of them. -/
def ended (newline : String) : List String → String
  | [] => ""
  | row :: rest => row ++ newline ++ ended newline rest

/-- The row is a line with blanks in front. -/
def Shows (row text : String) : Prop :=
  OneLine text ∧ ∃ blanks, row = String.ofList (List.replicate blanks ' ') ++ text

section

variable {row text newline : String} {rows texts : List String}

theorem ended_append (newline : String) (rows more : List String) :
    ended newline (rows ++ more) = ended newline rows ++ ended newline more := by
  induction rows with
  | nil => exact String.empty_append.symm
  | cons row rest ih => rw [List.cons_append, ended, ended, ih, ← String.append_assoc]

theorem OneLine.ne_empty (h : OneLine text) : text ≠ "" := by
  rintro rfl
  exact absurd h.first (by decide)

theorem OneLine.isBlank (h : OneLine text) : isBlank text = false := by
  obtain ⟨c, hc, hshown⟩ := (Option.any_eq_true ..).mp h.first
  refine Bool.eq_false_iff.mpr fun hblank => ?_
  have hwhite := List.all_eq_true.mp hblank c (List.mem_of_mem_head? hc)
  rw [hwhite] at hshown
  cases hshown

theorem pieces_of_not_mem {cs : List Char} (hne : cs ≠ []) (h : '\n' ∉ cs) :
    Text.pieces cs = [(cs, false)] := by
  induction cs with
  | nil => exact absurd rfl hne
  | cons c cs ih =>
    obtain ⟨hc, hcs⟩ := not_or.mp (mt List.mem_cons.mpr h)
    rw [Text.pieces, if_neg (Ne.symm hc)]
    cases cs with
    | nil => rfl
    | cons d ds => rw [ih (List.cons_ne_nil d ds) hcs]

theorem OneLine.lines (h : OneLine text) : lines text = [text] := by
  have hne : text.toList ≠ [] := fun hnil => h.ne_empty (String.toList_inj.mp hnil)
  rw [Text.lines, pieces_of_not_mem hne h.line, List.map_singleton, lineOf, String.ofList_toList]

theorem OneLine.write (h : OneLine text) (e : Emitter) :
    e.line text = e.append (e.indent ++ text ++ e.newline) := by
  rw [Emitter.line, if_neg h.ne_empty, h.lines, List.foldl_cons, List.foldl_nil, Emitter.row, h.isBlank,
    if_neg Bool.false_ne_true, Emitter.append_append, Emitter.append_append, String.append_assoc]

/-- What the layouts write is rows that show their texts. -/
theorem LinesOf.written {ls : List Layout} (h : LinesOf ls) : ∀ e : Emitter, ∃ rows,
    Layout.writeAll ls e = e.append (ended e.newline rows) ∧
      List.Forall₂ Shows rows (Layout.textsAll ls) := by
  induction h with
  | nil => exact fun e => ⟨[], by simp [Layout.writeAll, Emitter.append, ended], .nil⟩
  | @line text ls htext _ ih =>
    intro e
    obtain ⟨rows, hrows, hshows⟩ := ih (e.append (e.indent ++ text ++ e.newline))
    refine ⟨(e.indent ++ text) :: rows, ?_, .cons ⟨htext, _, rfl⟩ hshows⟩
    rw [Layout.writeAll, Layout.write, htext.write, hrows, Emitter.append_append]
    rfl
  | @indented body ls _ _ ihbody ih =>
    intro e
    obtain ⟨inner, hinner, hbody⟩ := ihbody { e with level := e.level + 1 }
    obtain ⟨rows, hrows, hshows⟩ := ih (e.append (ended e.newline inner))
    have hwrite : Layout.write (.indented body) e = e.append (ended e.newline inner) := by
      rw [Layout.write, Emitter.indented, hinner]
      rfl
    refine ⟨inner ++ rows, ?_, List.rel_append hbody hshows⟩
    rw [Layout.writeAll, hwrite, hrows, Emitter.append_append, ended_append]
    rfl

theorem dropWhile_of_head? {cs : List Char}
    (h : cs.head?.any (!whitespace.contains ·) = true) : cs.dropWhile whitespace.contains = cs := by
  cases cs with
  | nil => rfl
  | cons c cs => exact List.dropWhile_cons_of_neg (by simpa using h)

/-- The text is found again between the blanks in front of it and the end of the row. -/
theorem Shows.trim (h : Shows row text) : trim row = text := by
  obtain ⟨h, blanks, rfl⟩ := h
  have hspaces : (List.replicate blanks ' ' ++ text.toList).dropWhile whitespace.contains =
      text.toList := (bare_spaces blanks text.toList).trans (dropWhile_of_head? h.first)
  have hrev : text.toList.reverse.dropWhile whitespace.contains = text.toList.reverse :=
    dropWhile_of_head? (by rw [List.head?_reverse]; exact h.last)
  rw [Text.trim, String.toList_append, String.toList_ofList, trimChars, hspaces, hrev,
    List.reverse_reverse, String.ofList_toList]

theorem Shows.not_mem (h : Shows row text) : '\n' ∉ row.toList := by
  obtain ⟨h, blanks, rfl⟩ := h
  rw [String.toList_append, String.toList_ofList, List.mem_append]
  rintro (hin | hin)
  · exact absurd (List.eq_of_mem_replicate hin) (by decide)
  · exact h.line hin

theorem Shows.dropReturn (h : Shows row text) : dropReturn row.toList = row.toList := by
  obtain ⟨h, blanks, rfl⟩ := h
  obtain ⟨last, hlast, hshown⟩ := (Option.any_eq_true ..).mp h.last
  refine if_neg ?_
  rw [String.toList_append, List.getLast?_append, hlast]
  rintro ⟨⟩
  exact absurd hshown (by decide)

/-- A line feed ends a line, also with a carriage return in front of it. -/
def EndsLine (newline : String) : Prop :=
  newline = "\n" ∨ newline = "\r\n"

/-- A row is a line of its own whatever follows it. -/
theorem Shows.lines_append (hnew : EndsLine newline) (h : Shows row text) (rest : String) :
    lines (row ++ newline ++ rest) = row :: lines rest := by
  obtain ⟨ending, hmem, hlist, hline⟩ : ∃ ending, '\n' ∉ row.toList ++ ending ∧
      newline.toList = ending ++ ['\n'] ∧ Text.dropReturn (row.toList ++ ending) = row.toList := by
    rcases hnew with rfl | rfl
    · exact ⟨[], by simpa using h.not_mem, rfl, by simpa using h.dropReturn⟩
    · exact ⟨['\r'], by simpa using h.not_mem, rfl, by simp [Text.dropReturn]⟩
  have htext : (row ++ newline ++ rest).toList = (row.toList ++ ending) ++ '\n' :: rest.toList := by
    rw [String.toList_append, String.toList_append, hlist, List.append_assoc, List.append_assoc,
      List.append_assoc, List.singleton_append]
  rw [Text.lines, htext, pieces_row hmem, List.map_cons, lineOf, hline, String.ofList_toList]
  rfl

/-- The lines of rows show the texts that the rows show. -/
theorem map_trim_lines (hnew : EndsLine newline) (h : List.Forall₂ Shows rows texts) :
    (lines (ended newline rows)).map Text.trim = texts := by
  induction h with
  | nil => rfl
  | cons hrow _ ih => rw [ended, hrow.lines_append hnew, List.map_cons, hrow.trim, ih]

end

/-! ## Reading what was written -/

/-- Branches in normal form stand as they are written. -/
theorem ordered_of_normalSwitch {branches : List (Branch Stmt)} (h : NormalSwitch branches) :
    Ordered branches := by
  obtain ⟨regular, last, rfl, hregular, hlast⟩ := h.labels
  have hclosed := h.closed
  clear h
  induction regular with
  | nil =>
    rcases hlast with rfl | ⟨b, rfl, hb⟩
    · trivial
    · exact ⟨⟨hclosed b List.mem_cons_self, .inr ⟨hb, rfl⟩⟩, trivial⟩
  | cons b regular ih =>
    obtain ⟨⟨hne, hvalues⟩, hrest⟩ := List.forall_mem_cons.mp hregular
    obtain ⟨hb, hmore⟩ := List.forall_mem_cons.mp hclosed
    exact ⟨⟨hb, .inl fun hv => hvalues (values_eq_nil hv hne)⟩, ih hrest hmore⟩

/-- The switches of a normalised body stand as they are written. -/
theorem ordered_of_normalize {mode : ClosureMode} {body stmts : List Stmt}
    (h : normalize mode body = .ok stmts) {value : String} {branches : List (Branch Stmt)}
    (ho : OccursVia Anywhere (.case value branches) stmts) : Ordered branches := by
  obtain ⟨source, groups, -, -, rfl⟩ := case_of_normalize body h ho
  exact ordered_of_normalSwitch (normalSwitch_merge (tight_of_normalize body h value _ ho))

/-- **The lines of a normalised body are read back as its plain form**, whatever was written before
them and however deep they stand. -/
theorem parseText_written {mode : ClosureMode} {body stmts : List Stmt}
    (hnormal : normalize mode body = .ok stmts) (hlegible : Everywhere Legible stmts) {e : Emitter}
    (hnew : EndsLine e.newline) :
    ∃ text, (Layout.writeAll (bodyLayout false stmts) e).out = e.out ++ text ∧
      parseText text = some (plainAll stmts) := by
  have hreadable : Everywhere Readable stmts := fun s hs =>
    ⟨hlegible s hs, fun value branches hcase => ordered_of_normalize hnormal (hcase ▸ hs)⟩
  obtain ⟨rows, hrows, hshows⟩ := (linesOf_bodyLayout stmts hlegible).written e
  refine ⟨ended e.newline rows, by rw [hrows]; rfl, ?_⟩
  rw [parseText, map_trim_lines hnew hshows, parseLines, reads_body stmts hreadable {} rfl]
  rfl

/-- A loop around a switch of which one group holds a chain of conditions, and the other a block. -/
def polling : List Stmt :=
  [.loop "c" [.case "x"
    [⟨[.value "1", .value "2"], true, [.ifThen "p" [.other "a"] (some [.ifThen "q" [] none])]⟩,
      ⟨[.otherwise], true, [.block [.return none], .comment "z"]⟩]]]

theorem parseText_written_polling : ∃ text,
    (Layout.writeAll (bodyLayout false polling)
      { level := 2, newline := "\r\n", out := "before" }).out = "before" ++ text ∧
    parseText text = some [.loop "c" [.case "x"
      [⟨[.value "1, 2"], true, [.ifThen "p" [.other "a"] (some [.ifThen "q" [] none])]⟩,
        ⟨[.otherwise], true, [.return none]⟩]]] := by
  have hnormal : normalize .strict [.loop "c" [.case "x"
      [⟨[.value "1", .value "2"], false,
        [.ifThen "p" [.other "a"] (some [.ifThen "q" [] none]), .leave none]⟩,
        ⟨[.otherwise], false, [.block [.return none], .comment "z"]⟩]]] = .ok polling := rfl
  have hlegible : Everywhere Legible polling := by
    simp only [polling, everywhere_cons, everywhere_nil, Stmt.bodies, Legible, List.forall_mem_cons,
      List.not_mem_nil, false_implies, implies_true, List.map_cons, List.map_nil, Option.toList]
    decide
  exact parseText_written hnormal hlegible (.inr rfl)

end Rubify.Ruby
