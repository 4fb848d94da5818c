import Rubify.Settings.LogFilter
import Mathlib.Data.List.Basic
import Mathlib.Tactic.Tauto

/-!
# Directives that override others

Of the filters that texts of directives are read into, three things are assumed: the entries of two
texts with a comma between them are those of the one and of the other, a text can be read iff all its
entries can, and the last entry for a target gives the level. `Sets` says the latter of a text as a
whole.

The configured directives and those of the environment are put together as texts, with a comma between
them. So the environment wins, target by target, where both can be read.

Headline:
* **`Logging.filterWith_settled`**: which filter a configured level and the environment lead to,
  whatever the two texts are and however entries are read.
-/

namespace Rubify

/-! ## What a text sets -/

/-- How texts are divided into entries, and which directive an entry is: a level for a target, or a
bare level. -/
structure EntryReader where
  entries : String → List (List Char)
  read? : List Char → Option Directive

/-- The last of the entries for the target gives it the level. -/
inductive Gives (read? : List Char → Option Directive) (target : Option String) (level : Level) :
    List (List Char) → Prop
  | last {entry : List Char} {rest : List (List Char)} : read? entry = some ⟨target, level⟩ →
      (∀ later ∈ rest, ∀ other, read? later ≠ some ⟨target, other⟩) →
      Gives read? target level (entry :: rest)
  | behind {entry : List Char} {rest : List (List Char)} :
      Gives read? target level rest → Gives read? target level (entry :: rest)

namespace EntryReader

variable (es : EntryReader)

/-- Every entry of the text is a directive. -/
def Readable (text : String) : Prop :=
  ∀ entry ∈ es.entries text, (es.read? entry).isSome = true

instance (text : String) : Decidable (es.Readable text) :=
  inferInstanceAs (Decidable (∀ entry ∈ es.entries text, (es.read? entry).isSome = true))

/-- The text sets the target to the level; without a target it is a bare level. -/
def Sets (text : String) (target : Option String) (level : Level) : Prop :=
  Gives es.read? target level (es.entries text)

end EntryReader

section

variable {read? : List Char → Option Directive} {target : Option String} {level : Level}
  {entry : List Char} {rest xs ys : List (List Char)}

theorem gives_cons : Gives read? target level (entry :: rest) ↔ Gives read? target level rest ∨
    (read? entry = some ⟨target, level⟩ ∧
      ∀ later ∈ rest, ∀ other, read? later ≠ some ⟨target, other⟩) := by
  constructor
  · rintro (⟨hentry, hrest⟩ | hrest)
    · exact Or.inr ⟨hentry, hrest⟩
    · exact Or.inl hrest
  · rintro (hrest | ⟨hentry, hrest⟩)
    · exact .behind hrest
    · exact .last hentry hrest

/-- Nothing is given to a target iff no entry is for it. -/
theorem forall_not_gives : (∀ other, ¬ Gives read? target other xs) ↔
    ∀ entry ∈ xs, ∀ other, read? entry ≠ some ⟨target, other⟩ := by
  induction xs with
  | nil => exact ⟨fun _ _ h => absurd h List.not_mem_nil, fun _ _ h => by cases h⟩
  | cons entry xs ih =>
    simp only [gives_cons, not_or, not_and, List.forall_mem_cons, forall_and, ih]
    constructor
    · rintro ⟨hxs, hentry⟩
      exact ⟨fun other hother => hentry other hother hxs, hxs⟩
    · rintro ⟨hentry, hxs⟩
      exact ⟨hxs, fun other hother => absurd hother (hentry other)⟩

/-- Later entries win. -/
theorem gives_append : Gives read? target level (xs ++ ys) ↔
    Gives read? target level ys ∨
      (Gives read? target level xs ∧ ∀ other, ¬ Gives read? target other ys) := by
  induction xs with
  | nil =>
    refine ⟨Or.inl, ?_⟩
    rintro (h | ⟨h, -⟩)
    · exact h
    · cases h
  | cons entry xs ih =>
    rw [List.cons_append, gives_cons, ih, gives_cons, List.forall_mem_append, forall_not_gives]
    tauto

end

/-! ## What is assumed of filters -/

section

variable {F : Type} (r : FilterReader F) (es : EntryReader)

/-- A text is a list of entries with commas between them. -/
def CommaSeparated : Prop :=
  ∀ a b, es.entries (a ++ "," ++ b) = es.entries a ++ es.entries b

/-- A text is invalid iff one of its entries is. -/
def InvalidByEntry : Prop :=
  ∀ text, (∃ f, r.ofText? text = some f) ↔ es.Readable text

/-- A later entry for the same target, or a later bare level, replaces an earlier one: the filter of a
text has the levels that the text sets, and no others. -/
def LaterReplaces (level? : F → Option String → Option Level) : Prop :=
  ∀ text f, r.ofText? text = some f → ∀ target level,
    level? f target = some level ↔ es.Sets text target level

variable {r es}

theorem readable_append (hcomma : CommaSeparated es) {a b : String} :
    es.Readable (a ++ "," ++ b) ↔ es.Readable a ∧ es.Readable b := by
  rw [EntryReader.Readable, hcomma, List.forall_mem_append]
  rfl

theorem sets_append (hcomma : CommaSeparated es) {a b : String} {target : Option String}
    {level : Level} : es.Sets (a ++ "," ++ b) target level ↔
      es.Sets b target level ∨ (es.Sets a target level ∧ ∀ other, ¬ es.Sets b target other) := by
  rw [EntryReader.Sets, hcomma, gives_append]
  rfl

theorem ofText?_eq_none_iff (hvalid : InvalidByEntry r es) {text : String} :
    r.ofText? text = none ↔ ¬ es.Readable text := by
  rw [← hvalid, Option.eq_none_iff_forall_ne_some, not_exists]

end

/-! ## The configured level and the environment -/

namespace Logging

/-- The directives that the environment sets, without white space around them. -/
def environmentText (environment : Option String) : String :=
  Text.trim (environment.getD "")

/-- The filter that the configured level and the environment lead to. -/
structure Settled {F : Type} (r : FilterReader F) (es : EntryReader)
    (level? : F → Option String → Option Level) (l : Logging) (environment : Option String) (f : F) :
    Prop where
  /-- Without an environment the configured directives count if they can be read. -/
  configured : environment = none ∨ environmentText environment = "" → es.Readable l.directives →
    r.ofText? l.directives = some f
  /-- Otherwise there are warnings only. -/
  fallback : environment = none ∨ environmentText environment = "" → ¬ es.Readable l.directives →
    f = r.ofLevel .warn
  /-- The filter has the levels of the environment for all that the environment sets, and the configured
  ones for the rest; what neither sets has no level. -/
  merged : environmentText environment ≠ "" → es.Readable (environmentText environment) →
    es.Readable l.directives → ∀ target level, level? f target = some level ↔
      es.Sets (environmentText environment) target level ∨
        (es.Sets l.directives target level ∧
          ∀ other, ¬ es.Sets (environmentText environment) target other)
  /-- The environment stands alone if the configured directives cannot be read. -/
  alone : environmentText environment ≠ "" → es.Readable (environmentText environment) →
    ¬ es.Readable l.directives → r.ofText? (environmentText environment) = some f
  /-- An environment that cannot be read is as good as none. -/
  ignored : ¬ es.Readable (environmentText environment) → f = l.filterWith r none

section

variable {F : Type} {r : FilterReader F} {es : EntryReader}

theorem configuredFilter_of_readable (hvalid : InvalidByEntry r es) {l : Logging}
    (h : es.Readable l.directives) : r.ofText? l.directives = some (l.configuredFilter r) := by
  obtain ⟨f, hf⟩ := (hvalid l.directives).mpr h
  rw [configuredFilter, hf]
  rfl

theorem configuredFilter_of_not_readable (hvalid : InvalidByEntry r es) {l : Logging}
    (h : ¬ es.Readable l.directives) : l.configuredFilter r = r.ofLevel .warn := by
  rw [configuredFilter, (ofText?_eq_none_iff hvalid).mpr h]
  rfl

theorem filterWith_of_blank (r : FilterReader F) (l : Logging) {environment : Option String}
    (h : environment = none ∨ environmentText environment = "") :
    l.filterWith r environment = l.configuredFilter r := by
  have hblank : environmentText environment = "" := by
    rcases h with rfl | h
    · rfl
    · exact h
  rw [filterWith]
  exact if_pos hblank

theorem filterWith_of_set (r : FilterReader F) (l : Logging) {environment : Option String}
    (h : environmentText environment ≠ "") :
    l.filterWith r environment =
      ((r.ofText? (l.directives ++ "," ++ environmentText environment)).orElse fun _ =>
        r.ofText? (environmentText environment)).getD (l.configuredFilter r) := by
  rw [filterWith]
  exact if_neg h

end

/-- **The environment overrides the configured level**, target by target, where both can be read.
Where only one of them can be read, that one counts, and where neither can, there are warnings. -/
theorem filterWith_settled {F : Type} (r : FilterReader F) (es : EntryReader)
    (level? : F → Option String → Option Level) (hcomma : CommaSeparated es)
    (hvalid : InvalidByEntry r es) (hlater : LaterReplaces r es level?) (l : Logging)
    (environment : Option String) :
    Settled r es level? l environment (l.filterWith r environment) where
  configured hblank hl := by
    rw [filterWith_of_blank r l hblank]
    exact configuredFilter_of_readable hvalid hl
  fallback hblank hl := by
    rw [filterWith_of_blank r l hblank]
    exact configuredFilter_of_not_readable hvalid hl
  merged hset henv hl target level := by
    obtain ⟨f, hf⟩ := (hvalid _).mpr ((readable_append hcomma).mpr ⟨hl, henv⟩)
    rw [filterWith_of_set r l hset, hf]
    exact (hlater _ f hf target level).trans (sets_append hcomma)
  alone hset henv hl := by
    obtain ⟨f, hf⟩ := (hvalid _).mpr henv
    have hboth : r.ofText? (l.directives ++ "," ++ environmentText environment) = none :=
      (ofText?_eq_none_iff hvalid).mpr fun h => hl ((readable_append hcomma).mp h).1
    rw [filterWith_of_set r l hset, hboth, hf]
    rfl
  ignored henv := by
    rw [filterWith_of_blank r l (Or.inl rfl)]
    by_cases hset : environmentText environment = ""
    · exact filterWith_of_blank r l (Or.inr hset)
    · have hboth : r.ofText? (l.directives ++ "," ++ environmentText environment) = none :=
        (ofText?_eq_none_iff hvalid).mpr fun h => henv ((readable_append hcomma).mp h).2
      rw [filterWith_of_set r l hset, hboth, (ofText?_eq_none_iff hvalid).mpr henv]
      exact Option.getD_none

end Logging

/-! ## Log filters -/

namespace LogFilter

/-- How the texts of log filters are read. -/
def entryReader : EntryReader := ⟨entries, Directive.ofChars?⟩

/-- A directive that is put in gives its target its level, and leaves all others alone. -/
theorem level?_insert (d : Directive) (directives : List Directive) (target : Option String) :
    level? ⟨insert d directives⟩ target =
      if d.target = target then some d.level else level? ⟨directives⟩ target := by
  induction directives with
  | nil => by_cases h : d.target = target <;> simp [level?, insert, h]
  | cons e rest ih =>
    simp only [level?] at ih ⊢
    rw [insert]
    split
    · rename_i heq
      by_cases h : d.target = target <;> simp [h, ← heq]
    split
    · by_cases h : d.target = target <;> simp [List.find?_cons, h]
    · -- the first one is for another target than `d`, so it hides at most what `d` leaves alone
      rename_i hne _
      by_cases he : e.target = target
      · have hd : d.target ≠ target := fun hd => hne (hd.trans he.symm)
        simp [he, hd]
      · simp only [List.find?_cons, he, decide_false, ih]

/-- Directives that are put in one after the other give a target the level of the last one for it,
and leave it the level it had if there is none. -/
theorem level?_foldl (es : List (List Char)) (sorted : List Directive) (target : Option String)
    (level : Level) :
    level? ⟨(es.filterMap Directive.ofChars?).foldl (fun sorted d => insert d sorted) sorted⟩ target =
        some level ↔
      Gives Directive.ofChars? target level es ∨
        (level? ⟨sorted⟩ target = some level ∧
          ∀ other, ¬ Gives Directive.ofChars? target other es) := by
  induction es generalizing sorted with
  | nil =>
    refine ⟨fun h => Or.inr ⟨h, fun _ hgives => by cases hgives⟩, ?_⟩
    rintro (h | ⟨h, -⟩)
    · cases h
    · exact h
  | cons entry es ih =>
    -- the first entry counts only if no later one is for the same target, as in `gives_cons`
    rw [gives_cons, forall_not_gives, List.forall_mem_cons]
    cases hentry : Directive.ofChars? entry with
    | none =>
      rw [List.filterMap_cons_none hentry, ih, forall_not_gives]
      simp
    | some d =>
      rw [List.filterMap_cons_some hentry, List.foldl_cons, ih, level?_insert, forall_not_gives]
      obtain ⟨key, given⟩ := d
      by_cases hkey : key = target
      · simp [hkey]
      · simp [hkey]

theorem commaSeparated_entryReader : CommaSeparated entryReader := by
  intro a b
  have hlist : (a ++ "," ++ b).toList = a.toList ++ ',' :: b.toList := by simp
  simp only [entryReader, entries, hlist, List.splitOn_eq_splitOnP]
  rw [List.splitOnP_append_cons _ _ (by simp), List.filter_append]

theorem invalidByEntry_reader : InvalidByEntry reader entryReader := by
  intro text
  simp only [reader, ofText?, EntryReader.Readable, entryReader, List.all_eq_true]
  split
  · rename_i h
    exact ⟨fun _ => h, fun _ => ⟨_, rfl⟩⟩
  · rename_i h
    refine ⟨fun hsome => ?_, fun hall => absurd hall h⟩
    obtain ⟨f, hf⟩ := hsome
    cases hf

theorem laterReplaces_reader : LaterReplaces reader entryReader level? := by
  intro text f hf target level
  simp only [reader, ofText?] at hf
  split at hf
  · cases hf
    rw [ofDirectives, level?_foldl]
    simp [level?, EntryReader.Sets, entryReader]
  · cases hf

end LogFilter

namespace Logging

open LogFilter

/-- Levels for two targets and for everything else. -/
def flowing : Logging := { level := " flow=debug,a=1,WARN\n" }

/-- One of the targets anew, the other without a level, and a third. -/
def tracing : Option String := some " a,flow=TRACE,hir=off "

/-- A level that does not exist. -/
def loud : Logging := { level := "b=loud" }

/-- Log filters are read as is assumed. The environment is merged, passed over, alone, and blank. -/
theorem filterWith_settled_tracing :
    CommaSeparated entryReader ∧ InvalidByEntry reader entryReader ∧
    LaterReplaces reader entryReader level? ∧
    (environmentText tracing ≠ "" ∧ entryReader.Readable (environmentText tracing) ∧
      entryReader.Readable flowing.directives ∧
      (flowing.filter tracing).text = "flow=trace,hir=off,a=trace,warn" ∧
      ∀ target level, level? (flowing.filter tracing) target = some level ↔
        entryReader.Sets (environmentText tracing) target level ∨
          (entryReader.Sets flowing.directives target level ∧
            ∀ other, ¬ entryReader.Sets (environmentText tracing) target other)) ∧
    (¬ entryReader.Readable (environmentText (some "b=loud")) ∧
      flowing.filter (some "b=loud") = flowing.filter none) ∧
    (¬ entryReader.Readable loud.directives ∧
      ofText? (environmentText tracing) = some (loud.filter tracing) ∧
      loud.filter (some "\t") = ofLevel .warn) := by
  have hset : environmentText tracing ≠ "" := by decide
  have htracing : entryReader.Readable (environmentText tracing) := by decide +kernel
  have hflowing : entryReader.Readable flowing.directives := by decide +kernel
  have hpassed : ¬ entryReader.Readable (environmentText (some "b=loud")) := by decide +kernel
  have hloud : ¬ entryReader.Readable loud.directives := by decide +kernel
  have hsettled := filterWith_settled reader entryReader level? commaSeparated_entryReader
    invalidByEntry_reader laterReplaces_reader
  exact ⟨commaSeparated_entryReader, invalidByEntry_reader, laterReplaces_reader,
    ⟨hset, htracing, hflowing, by decide +kernel,
      (hsettled flowing tracing).merged hset htracing hflowing⟩,
    ⟨hpassed, (hsettled flowing (some "b=loud")).ignored hpassed⟩,
    hloud, (hsettled loud tracing).alone hset htracing hloud,
    (hsettled loud (some "\t")).fallback (Or.inr (by decide)) hloud⟩

end Logging

end Rubify
