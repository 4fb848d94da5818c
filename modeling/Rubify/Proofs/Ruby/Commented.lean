import Rubify.Proofs.Comments.Conservation
import Rubify.Proofs.Comments.Normalized
import Rubify.Proofs.Output.Levels
import Rubify.Proofs.Program.Built
import Rubify.Proofs.Ruby.Overloads

/-!
# With and without comments

Two conversions of one tree that differ in whether comments are written. Comments are statements like
others up to the layout: they are normalised, they keep an `else` from becoming an `elsif`, and a
section may hold nothing else. Still, all that writing them changes is rows of comments and empty rows.

`Annotates` says so of two layouts: without comments and gaps (`Layout.codeAll`) they are the same, the
second has no comments at all, and those of the first are among given texts. It is kept by every way
of putting layouts together, so each layout function gets one lemma, about its two runs
(`Alike`: the same error, or related results).

Headlines:
* **`alike_unitLayout`**: with comments, a unit has the same lines, and comments of its graph.
* **`convert_comments`**: with comments, a tree is converted to the same rows, and rows of its comments.
-/

namespace Rubify

/-! ## Two runs -/

/-- Two runs fail with the same error, or give related results. -/
inductive Alike {ε α β : Type} (R : α → β → Prop) : Except ε α → Except ε β → Prop
  | error (e : ε) : Alike R (.error e) (.error e)
  | ok {a : α} {b : β} : R a b → Alike R (.ok a) (.ok b)

namespace Alike

variable {ε α β α' β' : Type} {R : α → β → Prop} {S : α' → β' → Prop}

theorem bind {x : Except ε α} {y : Except ε β} {f : α → Except ε α'} {g : β → Except ε β'}
    (h : Alike R x y) (hfg : ∀ a b, R a b → Alike S (f a) (g b)) : Alike S (x >>= f) (y >>= g) := by
  cases h with
  | error e => exact .error e
  | ok hab => exact hfg _ _ hab

theorem map {x : Except ε α} {y : Except ε β} {f : α → α'} {g : β → β'}
    (h : Alike R x y) (hfg : ∀ a b, R a b → S (f a) (g b)) : Alike S (f <$> x) (g <$> y) := by
  cases h with
  | error e => exact .error e
  | ok hab => exact .ok (hfg _ _ hab)

theorem mapError {ε' : Type} {x : Except ε α} {y : Except ε β} (h : Alike R x y) (f : ε → ε') :
    Alike R (x.mapError f) (y.mapError f) := by
  cases h with
  | error e => exact .error (f e)
  | ok hab => exact .ok hab

/-- Steps that are alike for each element are alike for a list. -/
theorem mapM {γ : Type} {f : γ → Except ε α} {g : γ → Except ε β} : ∀ {xs : List γ},
    (∀ x ∈ xs, Alike R (f x) (g x)) → Alike (List.Forall₂ R) (xs.mapM f) (xs.mapM g)
  | [], _ => .ok .nil
  | x :: xs, h => by
    obtain ⟨hx, hxs⟩ := List.forall_mem_cons.mp h
    rw [List.mapM_cons, List.mapM_cons]
    exact hx.bind fun a b hab => (mapM hxs).bind fun as bs habs => .ok (.cons hab habs)

end Alike

/-! ## Code and remarks of layouts -/

namespace Layout

mutual

/-- A layout without comments and gaps. -/
def code : Layout → List Layout
  | .line text => [.line text]
  | .comment _ | .gap => []
  | .indented body => [.indented (codeAll body)]
  | .spliced body => [.spliced (codeAll body)]

/-- Layouts without comments and gaps. -/
def codeAll : List Layout → List Layout
  | [] => []
  | l :: rest => l.code ++ codeAll rest

end

mutual

/-- The texts of comments of a layout. -/
def remarks : Layout → List String
  | .line _ | .gap => []
  | .comment text => [text]
  | .indented body | .spliced body => remarksAll body

/-- The texts of comments of layouts. -/
def remarksAll : List Layout → List String
  | [] => []
  | l :: rest => l.remarks ++ remarksAll rest

end

theorem codeAll_append (xs ys : List Layout) : codeAll (xs ++ ys) = codeAll xs ++ codeAll ys := by
  induction xs with
  | nil => rfl
  | cons l xs ih => rw [List.cons_append, codeAll, codeAll, ih, List.append_assoc]

theorem remarksAll_append (xs ys : List Layout) :
    remarksAll (xs ++ ys) = remarksAll xs ++ remarksAll ys := by
  induction xs with
  | nil => rfl
  | cons l xs ih => rw [List.cons_append, remarksAll, remarksAll, ih, List.append_assoc]

end Layout

/-! ## The rows of code -/

/-- A row that shows something and does not belong to a comment. -/
def Row.isCode (r : Row) : Bool :=
  !r.comment && r.text ≠ ""

namespace Layout

theorem rowsAll_append (level : Nat) : ∀ (xs ys : List Layout) (before : List Row),
    rowsAll level before (xs ++ ys) = rowsAll level (rowsAll level before xs) ys
  | [], ys, before => by rw [List.nil_append, rowsAll]
  | l :: xs, ys, before => by
    rw [List.cons_append, rowsAll, rowsAll, rowsAll_append level xs ys]

theorem filter_textRows_comment (level : Nat) (text : String) :
    (textRows level true text).filter Row.isCode = [] := by
  rw [List.filter_eq_nil_iff]
  intro r hr
  simp [Row.isCode, (mem_textRows hr).2]

mutual

/-- Comments and gaps make no difference to the rows of code, neither their own nor those behind. -/
theorem filter_rows_code : ∀ (l : Layout) (level : Nat) {before before' : List Row},
    before.filter Row.isCode = before'.filter Row.isCode →
      (l.rows level before).filter Row.isCode =
        (rowsAll level before' l.code).filter Row.isCode
  | .line text, level, before, before', h => by
    rw [code, rowsAll, rowsAll, rows, rows, List.filter_append, List.filter_append, h]
  | .comment text, level, before, before', h => by
    rw [code, rowsAll, rows, List.filter_append, filter_textRows_comment, List.append_nil, h]
  | .gap, level, before, before', h => by
    rw [code, rowsAll, rows, ← h]
    split
    · rfl
    · rw [List.filter_append]
      simp [Row.isCode]
  | .indented body, level, before, before', h => by
    rw [code, rowsAll, rowsAll, rows, rows]
    exact filter_rowsAll_code body (level + 1) h
  | .spliced body, level, before, before', h => by
    rw [code, rowsAll, rowsAll, rows, rows, List.filter_append, List.filter_append, h,
      filter_rowsAll_code body level rfl]

theorem filter_rowsAll_code : ∀ (ls : List Layout) (level : Nat) {before before' : List Row},
    before.filter Row.isCode = before'.filter Row.isCode →
      (rowsAll level before ls).filter Row.isCode =
        (rowsAll level before' (codeAll ls)).filter Row.isCode
  | [], level, before, before', h => by
    rw [codeAll, rowsAll, rowsAll, h]
  | l :: rest, level, before, before', h => by
    rw [codeAll, rowsAll, rowsAll_append]
    exact filter_rowsAll_code rest level (filter_rows_code l level h)

end

mutual

/-- A row of a comment is a row of one of the remarks. -/
theorem mem_rows_of_comment : ∀ (l : Layout) (level : Nat) {before : List Row} {r : Row},
    r ∈ l.rows level before → r.comment = true →
      r ∈ before ∨ ∃ text ∈ l.remarks, r ∈ textRows r.level true text
  | .line text, level, before, r, h, hr => by
    rw [rows] at h
    rcases List.mem_append.mp h with h | h
    · exact Or.inl h
    · rw [(mem_textRows h).2] at hr
      cases hr
  | .comment text, level, before, r, h, hr => by
    rw [rows] at h
    rcases List.mem_append.mp h with h | h
    · exact Or.inl h
    · exact Or.inr ⟨text, List.mem_singleton.mpr rfl, by rwa [(mem_textRows h).1]⟩
  | .gap, level, before, r, h, hr => by
    rw [rows] at h
    split at h
    · exact Or.inl h
    · rcases List.mem_append.mp h with h | h
      · exact Or.inl h
      · rw [List.mem_singleton.mp h] at hr
        cases hr
  | .indented body, level, before, r, h, hr => by
    rw [rows] at h
    exact mem_rowsAll_of_comment body (level + 1) h hr
  | .spliced body, level, before, r, h, hr => by
    rw [rows] at h
    rcases List.mem_append.mp h with h | h
    · exact Or.inl h
    · rcases mem_rowsAll_of_comment body level h hr with h | h
      · cases h
      · exact Or.inr h

theorem mem_rowsAll_of_comment : ∀ (ls : List Layout) (level : Nat) {before : List Row} {r : Row},
    r ∈ rowsAll level before ls → r.comment = true →
      r ∈ before ∨ ∃ text ∈ remarksAll ls, r ∈ textRows r.level true text
  | [], level, before, r, h, hr => by
    rw [rowsAll] at h
    exact Or.inl h
  | l :: rest, level, before, r, h, hr => by
    rw [rowsAll] at h
    rw [remarksAll]
    rcases mem_rowsAll_of_comment rest level h hr with h | ⟨text, htext, hin⟩
    · rcases mem_rows_of_comment l level h hr with h | ⟨text, htext, hin⟩
      · exact Or.inl h
      · exact Or.inr ⟨text, List.mem_append_left _ htext, hin⟩
    · exact Or.inr ⟨text, List.mem_append_right _ htext, hin⟩

end

end Layout

namespace Ruby

open Program Layout

/-! ## Annotated layouts -/

theorem remarksAll_map_line {α : Type} (f : α → String) (xs : List α) :
    remarksAll (xs.map fun x => .line (f x)) = [] := by
  induction xs with
  | nil => rfl
  | cons x xs ih => exact ih

theorem codeAll_joinSections (sections : List (List Layout)) :
    codeAll (joinSections sections) = codeAll sections.flatten :=
  joinSections_hom codeAll_append rfl sections

theorem remarksAll_joinSections (sections : List (List Layout)) :
    remarksAll (joinSections sections) = remarksAll sections.flatten :=
  joinSections_hom remarksAll_append rfl sections

/-- The first layouts are the second with comments, of texts that `P` holds of, and gaps. -/
structure Annotates (P : String → Prop) (full plain : List Layout) : Prop where
  code : codeAll full = codeAll plain
  silent : remarksAll plain = []
  remarks : ∀ line ∈ remarksAll full, ∃ text, P text ∧ line = commentLine text

namespace Annotates

variable {P : String → Prop} {full plain full' plain' : List Layout}

/-- Lines without comments. -/
theorem same {lines : List Layout} (h : remarksAll lines = []) : Annotates P lines lines :=
  ⟨rfl, h, fun line hl => by rw [h] at hl; cases hl⟩

theorem append (h : Annotates P full plain) (h' : Annotates P full' plain') :
    Annotates P (full ++ full') (plain ++ plain') where
  code := by rw [codeAll_append, codeAll_append, h.code, h'.code]
  silent := by rw [remarksAll_append, h.silent, h'.silent, List.append_nil]
  remarks := by
    rw [remarksAll_append]
    exact List.forall_mem_append.mpr ⟨h.remarks, h'.remarks⟩

theorem line (text : String) (h : Annotates P full plain) :
    Annotates P (.line text :: full) (.line text :: plain) := by
  have hline : Annotates P [.line text] [.line text] := same rfl
  exact hline.append h

theorem indented (h : Annotates P full plain) (h' : Annotates P full' plain') :
    Annotates P (.indented full :: full') (.indented plain :: plain') := by
  have hblock : Annotates P [.indented full] [.indented plain] :=
    { code := by simp only [codeAll, Layout.code, h.code]
      silent := by simpa only [remarksAll, Layout.remarks, List.append_nil] using h.silent
      remarks := by simpa only [remarksAll, Layout.remarks, List.append_nil] using h.remarks }
  exact hblock.append h'

theorem spliced (h : Annotates P full plain) : Annotates P [.spliced full] [.spliced plain] where
  code := by simp only [codeAll, Layout.code, h.code]
  silent := by simpa only [remarksAll, Layout.remarks, List.append_nil] using h.silent
  remarks := by simpa only [remarksAll, Layout.remarks, List.append_nil] using h.remarks

theorem comments {texts : List String} (h : ∀ text ∈ texts, P text) :
    Annotates P (commentLayout true texts) (commentLayout false texts) := by
  induction texts with
  | nil => exact same rfl
  | cons text rest ih =>
    obtain ⟨htext, hrest⟩ := List.forall_mem_cons.mp h
    have hfirst : Annotates P [.comment (commentLine text)] [] :=
      ⟨rfl, rfl, fun line hl => ⟨text, htext, List.mem_singleton.mp hl⟩⟩
    exact hfirst.append (ih hrest)

theorem flatten {fulls plains : List (List Layout)} (h : List.Forall₂ (Annotates P) fulls plains) :
    Annotates P fulls.flatten plains.flatten := by
  induction h with
  | nil => exact same rfl
  | cons hfirst _ ih => exact hfirst.append ih

/-- The gaps between sections make no difference. -/
theorem joinSections {fulls plains : List (List Layout)}
    (h : Annotates P fulls.flatten plains.flatten) :
    Annotates P (Ruby.joinSections fulls) (Ruby.joinSections plains) where
  code := by rw [codeAll_joinSections, codeAll_joinSections, h.code]
  silent := by rw [remarksAll_joinSections, h.silent]
  remarks := by
    rw [remarksAll_joinSections]
    exact h.remarks

end Annotates

/-! ## Statements -/

section

variable {P : String → Prop}

theorem annotates_bodyLayout_and_else (body : List Flow.Stmt) :
    (∀ text ∈ Flow.commentTexts body, P text) →
      Annotates P (bodyLayout true body) (bodyLayout false body) ∧
      Annotates P (elseLayout true (some body)) (elseLayout false (some body)) := by
  induction body using Flow.body_induction with
  | nil => exact fun _ => ⟨.same rfl, .line _ (.indented (.same rfl) (.same rfl))⟩
  | cons s rest ihs ih =>
    intro hP
    obtain ⟨hs, hrest⟩ := List.forall_mem_append.mp hP
    -- the lines of an `if` behind its condition
    have hif : ∀ condition thenBranch elseBranch, s = .ifThen condition thenBranch elseBranch →
        Annotates P (.indented (bodyLayout true thenBranch) :: elseLayout true elseBranch)
          (.indented (bodyLayout false thenBranch) :: elseLayout false elseBranch) := by
      rintro condition thenBranch elseBranch rfl
      obtain ⟨hthen, helse⟩ := List.forall_mem_append.mp hs
      have hbody := (ihs thenBranch List.mem_cons_self hthen).1
      cases elseBranch with
      | none => exact .indented hbody (.same rfl)
      | some body => exact .indented hbody (ihs body (by simp [Flow.Stmt.bodies]) helse).2
    have hstmt : Annotates P (stmtLayout true s) (stmtLayout false s) := by
      cases s with
      | comment text => exact .comments hs
      | block body => exact (ihs body List.mem_cons_self hs).1
      | loop condition body | labeled label body =>
        exact .line _ (.indented (ihs body List.mem_cons_self hs).1 (.same rfl))
      | ifThen condition thenBranch elseBranch =>
        exact .line _ ((hif _ _ _ rfl).append (.same rfl))
      | case value branches =>
        have hbranches : ∀ bs : List (Flow.Branch Flow.Stmt), (∀ b ∈ bs, b ∈ branches) →
            Annotates P (branchesLayout true bs) (branchesLayout false bs) := by
          intro bs
          induction bs with
          | nil => exact fun _ => .same rfl
          | cons b bs ihb =>
            intro hall
            obtain ⟨labels, closed, body⟩ := b
            obtain ⟨hb, hbs⟩ := List.forall_mem_cons.mp hall
            have hbody := (ihs body (List.mem_map.mpr ⟨_, hb, rfl⟩) fun text ht =>
              hs text (Flow.mem_branchCommentTexts.mpr ⟨_, hb, ht⟩)).1
            exact .line _ (.indented hbody (ihb hbs))
        exact .line _ ((hbranches branches fun b hb => hb).append (.same rfl))
      | leave label => cases label <;> exact .same rfl
      | «return» value => cases value <;> exact .same rfl
      | _ => exact .same rfl
    have hbody := hstmt.append (ih hrest).1
    refine ⟨hbody, ?_⟩
    rcases elseLayout_cases (s :: rest) with ⟨condition, thenBranch, elseBranch, heq⟩ | hlayout
    · obtain ⟨rfl, rfl⟩ := List.cons.inj heq
      rw [elseLayout, elseLayout]
      exact .line _ (hif _ _ _ rfl)
    · rw [hlayout, hlayout]
      exact .line _ (.indented hbody (.same rfl))

variable {mode : Flow.ClosureMode}

/-- A body is normalised without regard to whether its comments are written. -/
theorem alike_normalizedBody (owner : String) {b : Body} (hP : ∀ text ∈ b.commentTexts, P text) :
    Alike (fun stmts stmts' => Annotates P (bodyLayout true stmts) (bodyLayout false stmts'))
      (normalizedBody ⟨mode, true⟩ owner b) (normalizedBody ⟨mode, false⟩ owner b) := by
  obtain ⟨stmts⟩ := b
  cases stmts with
  | none => exact .error _
  | some stmts =>
    unfold normalizedBody takeBody Body.take
    cases hn : Flow.normalize mode stmts with
    | error e =>
      simp only [hn]
      exact .error _
    | ok out =>
      have hout := (annotates_bodyLayout_and_else out fun text ht =>
        hP text (Flow.mem_commentTexts_of_normalize stmts hn ht)).1
      simp only [hn]
      exact .ok hout

end

/-! ## Methods and constructors -/

section

variable {P : String → Prop} {mode : Flow.ClosureMode}

theorem alike_methodLayout (owner : String) {m : Method} (hP : ∀ text ∈ m.commentTexts, P text) :
    Alike (Annotates P) (methodLayout ⟨mode, true⟩ owner m) (methodLayout ⟨mode, false⟩ owner m) := by
  obtain ⟨hcomments, hbody⟩ := List.forall_mem_append.mp hP
  have hinside : Alike (Annotates P) (methodBodyLayout ⟨mode, true⟩ (owner ++ "#" ++ m.name) m)
      (methodBodyLayout ⟨mode, false⟩ (owner ++ "#" ++ m.name) m) := by
    cases hb : m.body with
    | pending body =>
      rw [hb] at hbody
      rw [methodBodyLayout_of_pending hb, methodBodyLayout_of_pending hb]
      refine (alike_normalizedBody _ hbody).map fun stmts stmts' h => ?_
      unfold statementsLayout
      by_cases hsync : m.synchronized = true
      · rw [if_pos hsync, if_pos hsync]
        exact .line _ (.indented h (.same rfl))
      · rw [if_neg hsync, if_neg hsync]
        exact h
    | abstract | native =>
      rw [methodBodyLayout, methodBodyLayout, takeMethodBody, takeMethodBody, hb]
      exact .ok (.same rfl)
    | synthesized lines =>
      rw [methodBodyLayout, methodBodyLayout, takeMethodBody, takeMethodBody, hb]
      exact .ok (.same (remarksAll_map_line id lines))
  rw [methodLayout_eq, methodLayout_eq]
  refine hinside.map fun lines lines' h => ?_
  exact (Annotates.comments hcomments).append (.line _ (.indented h (.same rfl)))

/-- One constructor with two bodies. -/
structure Overload.Matches (P : String → Prop) (a a' : Overload) : Prop where
  constructor : a.1 = a'.1
  comments : ∀ text ∈ a.1.comments, P text
  lines : Annotates P a.2 a'.2

theorem alike_overloadOf (m : Module) {c : Constructor} (hP : ∀ text ∈ c.commentTexts, P text) :
    Alike (Overload.Matches P) (overloadOf ⟨mode, true⟩ m c) (overloadOf ⟨mode, false⟩ m c) := by
  obtain ⟨hcomments, hbody⟩ := List.forall_mem_append.mp hP
  refine (alike_normalizedBody _ hbody).map fun stmts stmts' h => ⟨rfl, hcomments, ?_⟩
  exact (Annotates.same (remarksAll_map_line _ _)).append h

/-- The same constructors in both containers. -/
structure Overloads.Matches (P : String → Prop) (s s' : Overloads) : Prop where
  fixed : List.Forall₂ (Overload.Matches P) s.fixed s'.fixed
  variadic : Option.Rel (Overload.Matches P) s.variadic s'.variadic

variable {a a' : Overload} {cs cs' : List Overload} {s s' : Overloads}

theorem Overload.Matches.layout (h : Overload.Matches P a a') :
    Annotates P [overloadLayout a] [overloadLayout a'] := by
  rw [overloadLayout, overloadLayout, h.constructor]
  refine .indented (.append (.same ?_) (.spliced h.lines)) (.same rfl)
  unfold bindLayout
  split <;> rfl

theorem any_matches {p : Constructor → Bool} (h : List.Forall₂ (Overload.Matches P) cs cs') :
    cs.any (fun c => p c.1) = cs'.any fun c => p c.1 := by
  induction h with
  | nil => rfl
  | cons ha _ ih => rw [List.any_cons, List.any_cons, ha.constructor, ih]

theorem isSome_matches {v v' : Option Overload} (h : Option.Rel (Overload.Matches P) v v') :
    v.isSome = v'.isSome := by
  cases h <;> rfl

/-- Which container a constructor goes to, and whether it overlaps, does not depend on its lines. -/
theorem alike_add (name : String) (h : s.Matches P s') (ha : Overload.Matches P a a') :
    Alike (Overloads.Matches P) (s.add name a) (s'.add name a') := by
  have hvariadic : s.variadic.isSome = s'.variadic.isSome := isSome_matches h.variadic
  have hfixed : s.fixed.any (fun d => d.1.params.length = a'.1.params.length) =
      s'.fixed.any fun d => d.1.params.length = a'.1.params.length :=
    any_matches (p := fun d => d.params.length = a'.1.params.length) h.fixed
  rw [Overloads.add, Overloads.add, ha.constructor, hvariadic, hfixed]
  split
  · split
    · exact .error _
    · exact .ok ⟨h.fixed, .some ha⟩
  · split
    · exact .error _
    · exact .ok ⟨List.rel_append h.fixed (.cons ha .nil), h.variadic⟩

theorem alike_foldlM_add (name : String) (h : s.Matches P s')
    (hcs : List.Forall₂ (Overload.Matches P) cs cs') : Alike (Overloads.Matches P)
      (cs.foldlM (Overloads.add name) s) (cs'.foldlM (Overloads.add name) s') := by
  induction hcs generalizing s s' with
  | nil => exact .ok h
  | cons ha _ ih =>
    rw [List.foldlM_cons, List.foldlM_cons]
    exact (alike_add name h ha).bind fun _ _ hnext => ih hnext

theorem annotates_whens (h : List.Forall₂ (Overload.Matches P) cs cs') : Annotates P
    (cs.flatMap fun c => [.line ("when " ++ toString c.1.params.length), overloadLayout c])
    (cs'.flatMap fun c => [.line ("when " ++ toString c.1.params.length), overloadLayout c]) := by
  induction h with
  | nil => exact .same rfl
  | cons ha _ ih =>
    rw [List.flatMap_cons, List.flatMap_cons, ha.constructor]
    exact .append (.line _ ha.layout) ih

theorem annotates_elseLayoutOf {v v' : Option Overload} (h : Option.Rel (Overload.Matches P) v v') :
    Annotates P [elseLayoutOf v] [elseLayoutOf v'] := by
  cases h with
  | none => exact .same rfl
  | some ha => exact ha.layout

theorem annotates_overloadComments (h : List.Forall₂ (Overload.Matches P) cs cs') :
    Annotates P ((cs.map Prod.fst).flatMap fun c => commentLayout true c.comments)
      ((cs'.map Prod.fst).flatMap fun c => commentLayout false c.comments) := by
  induction h with
  | nil => exact .same rfl
  | cons ha _ ih =>
    rw [List.map_cons, List.map_cons, List.flatMap_cons, List.flatMap_cons, ← ha.constructor]
    exact .append (.comments ha.comments) ih

theorem annotates_dispatchLayout (h : s.Matches P s')
    (hcs : List.Forall₂ (Overload.Matches P) cs cs') :
    Annotates P (dispatchLayout ⟨mode, true⟩ (cs.map Prod.fst) s)
      (dispatchLayout ⟨mode, false⟩ (cs'.map Prod.fst) s') := by
  refine .append (annotates_overloadComments hcs) (.line _ (.indented ?_ (.same rfl)))
  exact .append (.append (.same rfl) (annotates_whens h.fixed))
    (.line _ (.append (annotates_elseLayoutOf h.variadic) (.same rfl)))

theorem alike_arrangedLayout (name : String) (h : List.Forall₂ (Overload.Matches P) cs cs') :
    Alike (Annotates P) (arrangedLayout ⟨mode, true⟩ name cs)
      (arrangedLayout ⟨mode, false⟩ name cs') := by
  by_cases hone : cs.length = 1
  · obtain ⟨c, rfl⟩ := List.length_eq_one_iff.mp hone
    cases h with
    | cons ha hrest =>
      cases hrest
      rw [arrangedLayout_singleton, arrangedLayout_singleton, singleLayout, singleLayout,
        ← ha.constructor]
      exact .ok (.append (.comments ha.comments)
        (.line _ (.indented (.spliced ha.lines) (.same rfl))))
  · have hone' : cs'.length ≠ 1 := h.length_eq ▸ hone
    rw [arrangedLayout_of_length_ne_one hone, arrangedLayout_of_length_ne_one hone']
    exact (alike_foldlM_add name ⟨.nil, .none⟩ h).map fun _ _ hs => annotates_dispatchLayout hs h

theorem alike_constructorsSection {m : Module}
    (hP : ∀ text ∈ m.constructors.flatMap Constructor.commentTexts, P text) :
    Alike (List.Forall₂ (Annotates P)) (constructorsSection ⟨mode, true⟩ m)
      (constructorsSection ⟨mode, false⟩ m) := by
  cases hempty : m.constructors.isEmpty with
  | true =>
    rw [constructorsSection, constructorsSection, takeConstructors, takeConstructors,
      if_pos hempty, if_pos hempty]
    exact .ok .nil
  | false =>
    have hcs : Alike (List.Forall₂ (Overload.Matches P)) (m.constructors.mapM (overloadOf ⟨mode, true⟩ m))
        (m.constructors.mapM (overloadOf ⟨mode, false⟩ m)) :=
      .mapM fun c hc => alike_overloadOf m fun text ht => hP text (List.mem_flatMap.mpr ⟨c, hc, ht⟩)
    rw [constructorsSection_eq hempty, constructorsSection_eq hempty]
    refine hcs.bind fun _ _ h => ?_
    exact (alike_arrangedLayout m.name h).map fun _ _ h => .cons h .nil

end

/-! ## Static members -/

section

variable {P : String → Prop} {mode : Flow.ClosureMode} {m : Module}

theorem alike_staticLayout (hfields : ∀ f ∈ m.staticFields, ∀ text ∈ f.comments, P text)
    (hconstants : ∀ c ∈ m.constants, ∀ text ∈ c.comments, P text)
    (hblocks : ∀ b ∈ m.staticBlocks, ∀ text ∈ b.commentTexts, P text) (member : StaticMember) :
    Alike (Annotates P) (staticLayout ⟨mode, true⟩ m member) (staticLayout ⟨mode, false⟩ m member) := by
  cases member with
  | field index =>
    rw [staticLayout_field, staticLayout_field]
    cases hf : m.staticFields[index]? with
    | none => exact .ok (.same rfl)
    | some f =>
      exact .ok (.append (.comments (hfields f (List.mem_of_getElem? hf))) (.same rfl))
  | constant index =>
    rw [staticLayout_constant, staticLayout_constant]
    cases hc : m.constants[index]? with
    | none => exact .ok (.same rfl)
    | some c =>
      exact .ok (.append (.comments (hconstants c (List.mem_of_getElem? hc))) (.same rfl))
  | block index =>
    rw [staticLayout_block, staticLayout_block]
    cases hb : m.staticBlocks[index]? with
    | none => exact .ok (.same rfl)
    | some b =>
      obtain ⟨hcomments, hbody⟩ := List.forall_mem_append.mp (hblocks b (List.mem_of_getElem? hb))
      exact (alike_normalizedBody _ hbody).map fun stmts stmts' h =>
        .append (.comments hcomments) h

theorem alike_staticsSection (hfields : ∀ f ∈ m.staticFields, ∀ text ∈ f.comments, P text)
    (hconstants : ∀ c ∈ m.constants, ∀ text ∈ c.comments, P text)
    (hblocks : ∀ b ∈ m.staticBlocks, ∀ text ∈ b.commentTexts, P text) :
    Alike (List.Forall₂ (Annotates P)) (staticsSection ⟨mode, true⟩ m)
      (staticsSection ⟨mode, false⟩ m) := by
  unfold staticsSection
  split
  · exact .ok .nil
  · have hparts : Alike (List.Forall₂ (Annotates P)) (m.staticOrder.mapM (staticLayout ⟨mode, true⟩ m))
        (m.staticOrder.mapM (staticLayout ⟨mode, false⟩ m)) :=
      .mapM fun member _ => alike_staticLayout hfields hconstants hblocks member
    exact hparts.map fun _ _ h => .cons (.flatten h) .nil

end

/-! ## Modules -/

section

variable {P : String → Prop} {mode : Flow.ClosureMode} {m : Module} {g : Graph}

/-- The section of loose comments may be the only difference in the number of sections. -/
theorem annotates_frameLayout (hcomments : ∀ text ∈ m.comments, P text)
    (hloose : ∀ text ∈ m.bodyComments, P text) {sections sections' : List (List Layout)}
    (h : Annotates P sections.flatten sections'.flatten) :
    Annotates P (frameLayout ⟨mode, true⟩ m sections) (frameLayout ⟨mode, false⟩ m sections') := by
  have hsection (present : Bool) : Annotates P
      (sectionIf (true && present) (commentLayout true m.bodyComments)).flatten
      (sectionIf (false && present) (commentLayout false m.bodyComments)).flatten := by
    cases present with
    | false => exact .same rfl
    | true => exact .append (.comments hloose) (.same rfl)
  have hincludes : Annotates P
      (sectionIf (!m.interfaces.isEmpty)
        (m.interfaces.map fun t => Layout.line ("include " ++ t.reference))).flatten
      (sectionIf (!m.interfaces.isEmpty)
        (m.interfaces.map fun t => Layout.line ("include " ++ t.reference))).flatten := by
    cases m.interfaces.isEmpty with
    | true => exact .same rfl
    | false => exact .append (.same (remarksAll_map_line _ _)) (.same rfl)
  refine .append (.comments hcomments) (.line _ (.indented (.joinSections ?_) (.same rfl)))
  simp only [List.flatten_append]
  exact .append (.append hincludes (hsection _)) h

theorem alike_moduleLayout (hP : ∀ text ∈ m.commentTexts, P text) {nested nested' : List (List Layout)}
    (hnested : List.Forall₂ (Annotates P) nested nested') :
    Alike (Annotates P) (moduleLayout ⟨mode, true⟩ m nested) (moduleLayout ⟨mode, false⟩ m nested') := by
  simp only [Module.commentTexts, List.forall_mem_append] at hP
  obtain ⟨⟨⟨⟨⟨⟨⟨hcomments, hloose⟩, -⟩, hfields⟩, hconstants⟩, hconstructors⟩, hmethods⟩, hblocks⟩ := hP
  have hc : Alike (List.Forall₂ (Annotates P)) (constructorsSection ⟨mode, true⟩ m)
      (constructorsSection ⟨mode, false⟩ m) := alike_constructorsSection hconstructors
  have hm : Alike (List.Forall₂ (Annotates P)) (m.methods.mapM (methodLayout ⟨mode, true⟩ m.name))
      (m.methods.mapM (methodLayout ⟨mode, false⟩ m.name)) :=
    .mapM fun method hin => alike_methodLayout m.name fun text ht =>
      hmethods text (List.mem_flatMap.mpr ⟨method, hin, ht⟩)
  have hs : Alike (List.Forall₂ (Annotates P)) (staticsSection ⟨mode, true⟩ m)
      (staticsSection ⟨mode, false⟩ m) :=
    alike_staticsSection (fun f hf text ht => hfields text (List.mem_flatMap.mpr ⟨f, hf, ht⟩))
      (fun c hc text ht => hconstants text (List.mem_flatMap.mpr ⟨c, hc, ht⟩))
      fun b hb text ht => hblocks text (List.mem_flatMap.mpr ⟨b, hb, ht⟩)
  refine hc.bind fun constructors constructors' hc => hm.bind fun methods methods' hm =>
    hs.bind fun statics statics' hs => .ok (annotates_frameLayout hcomments hloose ?_)
  exact .flatten (List.rel_append (List.rel_append (List.rel_append hnested hc) hm) hs)

theorem alike_graphLayout (hP : ∀ k m, g.get? k = some m → ∀ text ∈ m.commentTexts, P text)
    (id : ModuleId) :
    Alike (Annotates P) (graphLayout ⟨mode, true⟩ g id) (graphLayout ⟨mode, false⟩ g id) := by
  rw [graphLayout_eq, graphLayout_eq]
  have hnested : Alike (List.Forall₂ (Annotates P)) ((g.nested id).mapM (graphLayout ⟨mode, true⟩ g))
      ((g.nested id).mapM (graphLayout ⟨mode, false⟩ g)) := .mapM fun child hchild =>
    have := Links.lt_of_mem_nested hchild
    alike_graphLayout hP child
  refine hnested.bind fun _ _ h => ?_
  cases hm : g.get? id with
  | none => exact .ok (.same rfl)
  | some m => exact alike_moduleLayout (hP id m hm) h
termination_by g.links.size - id
decreasing_by simp only [ModuleId] at *; omega

theorem annotates_packageLayout {full plain : List Layout} (h : Annotates P full plain) :
    ∀ package : List String, Annotates P (packageLayout full package) (packageLayout plain package)
  | [] => h
  | _ :: rest => .line _ (.indented (annotates_packageLayout h rest) (.same rfl))

/-- **With comments, a unit has the same lines**, and comments that its graph holds. -/
theorem alike_unitLayout (mode : Flow.ClosureMode) (g : Graph) :
    Alike (Annotates (· ∈ g.commentTexts)) (unitLayout ⟨mode, true⟩ g) (unitLayout ⟨mode, false⟩ g) := by
  have hmodules : ∀ k m, g.get? k = some m → ∀ text ∈ m.commentTexts, text ∈ g.commentTexts :=
    fun k m hm text ht => List.mem_append_right _
      (List.mem_flatMap.mpr ⟨m, Array.mem_toList_iff.mpr (Array.mem_of_getElem? hm), ht⟩)
  have hroots : Alike (List.Forall₂ (Annotates (· ∈ g.commentTexts)))
      (g.roots.mapM (graphLayout ⟨mode, true⟩ g)) (g.roots.mapM (graphLayout ⟨mode, false⟩ g)) :=
    .mapM fun id _ => alike_graphLayout hmodules id
  refine hroots.map fun roots roots' h => ?_
  have himports : remarksAll (g.imports.map fun i => Layout.line ("# " ++ i.display)) = [] :=
    remarksAll_map_line _ _
  refine .append (.append (.append (.comments fun text ht => List.mem_append_left _ ht) (.same ?_))
    (.same rfl)) (annotates_packageLayout (.joinSections (.flatten h)) _)
  split
  · rfl
  · exact himports

end

end Ruby

/-! ## Conversion -/

open Ruby

theorem comment_eq_false_of_silent {lines : List Layout} (h : Layout.remarksAll lines = []) :
    ∀ r ∈ Layout.rowsAll 0 [] lines, r.comment = false := by
  intro r hr
  by_contra hne
  rcases Layout.mem_rowsAll_of_comment lines 0 hr (by simpa using hne) with hnil | ⟨text, htext, -⟩
  · cases hnil
  · rw [h] at htext
    cases htext

/-- The rows of code of annotated layouts are the rows of the others that show something. -/
theorem filter_rows_of_annotates {P : String → Prop} {full plain : List Layout}
    (h : Annotates P full plain) : (Layout.rowsAll 0 [] full).filter Row.isCode =
      (Layout.rowsAll 0 [] plain).filter fun r => r.text ≠ "" := by
  have hplain : (Layout.rowsAll 0 [] plain).filter Row.isCode =
      (Layout.rowsAll 0 [] plain).filter fun r => r.text ≠ "" := by
    refine List.filter_congr fun r hr => ?_
    rw [Row.isCode, comment_eq_false_of_silent h.silent r hr]
    rfl
  rw [← hplain, Layout.filter_rowsAll_code full 0 rfl, Layout.filter_rowsAll_code plain 0 rfl, h.code]

/-- What a tree is converted to with and without comments: the same error, or rows of annotated
layouts. -/
theorem alike_convertRows (mode : Flow.ClosureMode) (tree : Node) :
    Alike (fun full plain => ∃ lines lines', Annotates (· ∈ tree.commentTexts) lines lines' ∧
        full = Layout.rowsAll 0 [] lines ∧ plain = Layout.rowsAll 0 [] lines')
      (convertRows ⟨mode, true⟩ tree) (convertRows ⟨mode, false⟩ tree) := by
  unfold convertRows
  cases hg : Program.Graph.ofTree .ruby tree with
  | error e => exact .error _
  | ok g =>
    obtain ⟨u, hu, rfl⟩ := Program.ofTree_eq_ok hg
    have hperm := (Program.perm_commentTexts_ofUnit .ruby u).trans (Grammar.perm_commentTexts_readUnit hu)
    have tidy := Grammar.tidy_of_readUnit hu
    have built := Program.wellBuilt_of_sound (Program.sound_ofUnit .ruby tidy)
      (Program.listed_ofUnit .ruby tidy)
    have hunit := alike_unitLayout mode (.ofUnit .ruby u)
    -- The lines are those of the graph with all its bodies.
    have htaken := hunit.map (f := fun lines => (lines, (Program.Graph.ofUnit .ruby u).taken))
      (g := fun lines => (lines, (Program.Graph.ofUnit .ruby u).taken))
      (S := fun full plain => Annotates (· ∈ (Program.Graph.ofUnit .ruby u).commentTexts)
        full.1 plain.1) fun _ _ h => h
    rw [← built.taking, ← built.taking] at htaken
    refine (htaken.mapError _).bind fun written written' h =>
      .ok ⟨written.1, written'.1, ?_, rfl, rfl⟩
    refine ⟨h.code, h.silent, fun line hl => ?_⟩
    obtain ⟨text, htext, hline⟩ := h.remarks line hl
    exact ⟨text, hperm.subset htext, hline⟩

/-- **Writing comments only adds rows of comments and empty rows.** A tree is converted with and without
comments to the same error, or to rows of which those that show something and do not belong to a comment
are the same, in the same order and at the same levels; without comments no row belongs to one, and with
them every such row is written for a comment of the tree. -/
theorem convert_comments (s : Settings) (tree : Node) :
    (∃ e, convert { s with emitComments := true } tree = .error e ∧
      convert { s with emitComments := false } tree = .error e) ∨
    ∃ full plain : List Row,
      convert { s with emitComments := true } tree = .ok (writeRows s.indentWidth full) ∧
      convert { s with emitComments := false } tree = .ok (writeRows s.indentWidth plain) ∧
      (∀ r ∈ full, r.Proper) ∧ (∀ r ∈ plain, r.Proper) ∧
      full.filter (fun r => !r.comment && r.text ≠ "") = plain.filter (fun r => r.text ≠ "") ∧
      (∀ r ∈ plain, r.comment = false) ∧
      ∀ r ∈ full, r.comment = true →
        ∃ text ∈ tree.commentTexts, r ∈ textRows r.level true (commentLine text) := by
  have halike := alike_convertRows s.closureMode tree
  rw [convert_eq_writeRows, convert_eq_writeRows]
  simp only [Settings.options]
  generalize convertRows ⟨s.closureMode, true⟩ tree = x,
    convertRows ⟨s.closureMode, false⟩ tree = y at halike
  cases halike with
  | error e => exact Or.inl ⟨e, rfl, rfl⟩
  | ok h =>
    obtain ⟨lines, lines', h, rfl, rfl⟩ := h
    refine Or.inr ⟨_, _, rfl, rfl, Layout.proper_rowsAll lines (List.forall_mem_nil _),
      Layout.proper_rowsAll lines' (List.forall_mem_nil _), filter_rows_of_annotates h,
      comment_eq_false_of_silent h.silent, fun r hr hcomment => ?_⟩
    rcases Layout.mem_rowsAll_of_comment lines 0 hr hcomment with hnil | ⟨line, hline, hin⟩
    · cases hnil
    · obtain ⟨text, htext, rfl⟩ := h.remarks line hline
      exact ⟨text, htext, hin⟩

end Rubify
