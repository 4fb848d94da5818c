import Rubify.Proofs.Comments.Conservation
import Rubify.Proofs.Comments.Normalized
import Rubify.Proofs.Output.Rows
import Rubify.Proofs.Program.Built
import Rubify.Proofs.Ruby.Overloads
import Mathlib.Data.Multiset.MapFold
import Mathlib.Data.Multiset.Count

/-!
# The comments that are written

With comments asked for, laying out a unit writes the comments that its graph holds, except two sorts
(`Graph.unwritten`): those in front of fields, which are set up in the constructors and not where they
stand, and those in switch groups that nothing reaches.

Fix a line `l`. `Written l lines texts lost` says of layouts that every comment of `texts` that is
written as `l` is among the lines, or among those `lost`. Each layout gets one such lemma, by the
recursion of the definitions, and `Written.append` adds them up. Constructors are written by the number
of their arguments and static members by their order in the source, so it is a matter of counting and
not of order.

Headlines:
* **`convert_writes_comments`**: every comment of a tree has rows of its own in the text that the tree
  is converted to, except those that are left out.
* **`convert_omits_field_comment`**: the comment in front of a field is left out.
-/

namespace Rubify

/-! ## What is left out -/

namespace Program

/-- The comments of a body in switch groups that nothing reaches. -/
def Body.deadTexts (mode : Flow.ClosureMode) (b : Body) : List String :=
  (b.stmts.map (Flow.deadTexts mode)).getD []

/-- The comments of a method's body in switch groups that nothing reaches. -/
def MethodBody.deadTexts (mode : Flow.ClosureMode) : MethodBody → List String
  | .pending body => body.deadTexts mode
  | .abstract | .native | .synthesized _ => []

/-- The comments of a module that are not written: those in front of its fields, and those in switch
groups that nothing reaches. -/
def Module.unwritten (mode : Flow.ClosureMode) (m : Module) : List String :=
  m.fields.flatMap Field.comments ++ m.constructors.flatMap (·.body.deadTexts mode) ++
    m.methods.flatMap (·.body.deadTexts mode) ++ m.staticBlocks.flatMap (·.body.deadTexts mode)

/-- The comments of a graph that are not written. -/
def Graph.unwritten (mode : Flow.ClosureMode) (g : Graph) : List String :=
  g.modules.toList.flatMap (Module.unwritten mode)

end Program

namespace Ruby

open Program Layout

/-- The rows of a comment. -/
def commentRows (text : String) : List (List Char) :=
  Text.lineRows (commentLine text)

/-! ## Accounts of one line -/

/-- Of the comments `texts`, those that are written as `l` are among the lines or among those lost. -/
def Written (l : String) (lines : List Layout) (texts lost : List String) : Prop :=
  (texts.map commentLine).count l ≤ (lost.map commentLine).count l + (textsAll lines).count l

section

variable {l : String} {lines lines' : List Layout} {texts texts' lost lost' : List String}

theorem Written.append (h : Written l lines texts lost) (h' : Written l lines' texts' lost') :
    Written l (lines ++ lines') (texts ++ texts') (lost ++ lost') := by
  unfold Written at *
  simp only [textsAll_append, List.map_append, List.count_append]
  omega

/-- More lines do no harm. -/
theorem Written.mono (h : Written l lines texts lost)
    (hle : (textsAll lines).count l ≤ (textsAll lines').count l) : Written l lines' texts lost := by
  unfold Written at *
  omega

theorem Written.append_lines (h : Written l lines texts lost) (more : List Layout) :
    Written l (lines ++ more) texts lost := by
  refine h.mono ?_
  rw [textsAll_append, List.count_append]
  exact Nat.le_add_right _ _

/-- The order of comments does not matter. -/
theorem Written.perm (h : Written l lines texts lost) (ht : texts.Perm texts')
    (hl : lost.Perm lost') : Written l lines texts' lost' := by
  unfold Written at *
  rwa [← (ht.map commentLine).count_eq, ← (hl.map commentLine).count_eq]

theorem Written.nil : Written l lines [] [] :=
  Nat.zero_le _

theorem Written.mapM {α β ε : Type} {f : α → Except ε β} (layout : β → List Layout)
    {texts lost : α → List String} : ∀ {xs : List α} {ys : List β}, xs.mapM f = .ok ys →
      (∀ x ∈ xs, ∀ y, f x = .ok y → Written l (layout y) (texts x) (lost x)) →
      Written l (ys.flatMap layout) (xs.flatMap texts) (xs.flatMap lost)
  | [], ys, h, _ => by
    cases h
    exact .nil
  | x :: xs, ys, h, hw => by
    rw [List.mapM_cons] at h
    obtain ⟨y, hy, h⟩ := Flow.bind_eq_ok.mp h
    obtain ⟨ys', hys, h⟩ := Flow.bind_eq_ok.mp h
    cases h
    obtain ⟨hx, hxs⟩ := List.forall_mem_cons.mp hw
    simp only [List.flatMap_cons]
    exact (hx y hy).append (Written.mapM layout hys hxs)

theorem Written.mapM_flatten {α ε : Type} {f : α → Except ε (List Layout)}
    {texts lost : α → List String} {xs : List α} {parts : List (List Layout)}
    (h : xs.mapM f = .ok parts)
    (hw : ∀ x ∈ xs, ∀ lines, f x = .ok lines → Written l lines (texts x) (lost x)) :
    Written l parts.flatten (xs.flatMap texts) (xs.flatMap lost) := by
  have hparts := Written.mapM id h hw
  rwa [List.flatMap_id] at hparts

theorem written_commentLayout (texts : List String) :
    Written l (commentLayout true texts) texts [] := by
  have htexts : textsAll (commentLayout true texts) = texts.map commentLine := by
    unfold commentLayout
    induction texts with
    | nil => rfl
    | cons text rest ih => simpa [textsAll, Layout.texts] using ih
  unfold Written
  rw [htexts]
  exact Nat.le_add_left _ _

end

theorem textsAll_joinSections (sections : List (List Layout)) :
    textsAll (joinSections sections) = textsAll sections.flatten :=
  joinSections_hom textsAll_append rfl sections

/-! ## Statements -/

section

variable {l : String}

/-- The body of an `if` with an else branch is written whole, and so is the branch. -/
theorem written_bodyLayout_and_else (body : List Flow.Stmt) :
    Written l (bodyLayout true body) (Flow.commentTexts body) [] ∧
      Written l (elseLayout true (some body)) (Flow.commentTexts body) [] := by
  induction body using Flow.body_induction with
  | nil => exact ⟨.nil, .nil⟩
  | cons s rest ihs ih =>
    -- the lines of an `if` behind its condition
    have hif : ∀ condition thenBranch elseBranch, s = .ifThen condition thenBranch elseBranch →
        Written l (bodyLayout true thenBranch ++ elseLayout true elseBranch) s.commentTexts [] := by
      rintro condition thenBranch elseBranch rfl
      have hthen := (ihs thenBranch List.mem_cons_self).1
      cases elseBranch with
      | none => exact hthen.append .nil
      | some body => exact hthen.append (ihs body (by simp [Flow.Stmt.bodies])).2
    have hstmt : Written l (stmtLayout true s) s.commentTexts [] := by
      cases s with
      | comment text => exact written_commentLayout [text]
      | block body => exact (ihs body List.mem_cons_self).1
      | loop condition body | labeled label body =>
        refine (ihs body List.mem_cons_self).1.mono ?_
        simp only [stmtLayout, textsAll, Layout.texts, List.count_append]
        omega
      | ifThen condition thenBranch elseBranch =>
        refine (hif _ _ _ rfl).mono ?_
        simp only [stmtLayout, textsAll, textsAll_append, Layout.texts, List.count_append]
        omega
      | case value branches =>
        have hbranches : ∀ bs : List (Flow.Branch Flow.Stmt), (∀ b ∈ bs, b ∈ branches) →
            Written l (branchesLayout true bs) (Flow.branchCommentTexts bs) [] := by
          intro bs
          induction bs with
          | nil => exact fun _ => .nil
          | cons b bs ihb =>
            intro hall
            obtain ⟨labels, closed, body⟩ := b
            obtain ⟨hb, hbs⟩ := List.forall_mem_cons.mp hall
            have hbody := (ihs body (List.mem_map.mpr ⟨_, hb, rfl⟩)).1
            refine (hbody.append (ihb hbs)).mono ?_
            simp only [branchesLayout, textsAll, textsAll_append, Layout.texts, List.count_append]
            omega
        refine (hbranches branches fun b hb => hb).mono ?_
        simp only [stmtLayout, textsAll, textsAll_append, List.cons_append, List.count_append]
        omega
      | _ => exact .nil
    have hbody : Written l (bodyLayout true (s :: rest)) (Flow.commentTexts (s :: rest)) [] :=
      hstmt.append ih.1
    refine ⟨hbody, ?_⟩
    rcases elseLayout_cases (s :: rest) with ⟨condition, thenBranch, elseBranch, heq⟩ | hlayout
    · obtain ⟨rfl, rfl⟩ := List.cons.inj heq
      refine ((hif _ _ _ rfl).append ih.1).mono ?_
      simp only [elseLayout, bodyLayout, textsAll, textsAll_append, Layout.texts, List.count_append]
      omega
    · refine hbody.mono ?_
      simp only [hlayout, textsAll, Layout.texts, List.count_append]
      omega

theorem written_normalizedBody {o : Options} (ho : o.comments = true) {owner : String} {b : Body}
    {stmts : List Flow.Stmt} (h : normalizedBody o owner b = .ok stmts) :
    Written l (bodyLayout o.comments stmts) b.commentTexts (b.deadTexts o.closure) := by
  obtain ⟨source, hsource, hn⟩ := normalizedBody_eq_ok.mp h
  have hkept := Multiset.count_le_of_le l (Multiset.map_le_map (f := commentLine)
    (Multiset.coe_le.mpr (Flow.subperm_commentTexts_normalize hn)))
  rw [Multiset.map_coe, Multiset.map_coe, Multiset.coe_count, Multiset.coe_count] at hkept
  have hbody := (written_bodyLayout_and_else (l := l) stmts).1
  unfold Written at *
  rw [ho]
  simp only [Body.commentTexts, Body.deadTexts, hsource, Option.map_some, Option.getD_some]
  simp only [List.map_append, List.count_append, List.map_nil, List.count_nil] at hkept hbody
  omega

end

/-! ## Methods and constructors -/

section

variable {l : String} {o : Options} {m : Module}

theorem written_methodLayout (ho : o.comments = true) {owner : String} {method : Method}
    {lines : List Layout} (h : methodLayout o owner method = .ok lines) :
    Written l lines method.commentTexts (method.body.deadTexts o.closure) := by
  rw [methodLayout_eq] at h
  obtain ⟨body, hbody, rfl⟩ := Flow.map_eq_ok.mp h
  have hinside : Written l body method.body.commentTexts (method.body.deadTexts o.closure) := by
    cases hb : method.body with
    | pending b =>
      rw [methodBodyLayout_of_pending hb] at hbody
      obtain ⟨stmts, hstmts, rfl⟩ := Flow.map_eq_ok.mp hbody
      refine (written_normalizedBody ho hstmts).mono ?_
      unfold statementsLayout
      split
      · simp only [textsAll, Layout.texts, List.count_append]
        omega
      · exact Nat.le_refl _
    | abstract | native | synthesized => exact .nil
  rw [methodFrame, ho]
  refine ((written_commentLayout method.comments).append hinside).mono ?_
  simp only [textsAll, textsAll_append, Layout.texts, List.count_append]
  omega

/-- The lines of a constructor and of the comments in front of it. -/
def allLines (c : Overload) : List Layout :=
  commentLayout true c.1.comments ++ c.2

theorem written_overloadOf (ho : o.comments = true) {c : Constructor} {a : Overload}
    (h : overloadOf o m c = .ok a) :
    Written l (allLines a) c.commentTexts (c.body.deadTexts o.closure) := by
  obtain ⟨stmts, hstmts, rfl⟩ := overloadOf_eq_ok.mp h
  refine (written_commentLayout c.comments).append ((written_normalizedBody ho hstmts).mono ?_)
  simp only [constructorBodyLayout, textsAll_append, List.count_append]
  omega

theorem count_allLines (cs : List Overload) : (textsAll (cs.flatMap allLines)).count l =
    (textsAll ((cs.map Prod.fst).flatMap fun c => commentLayout true c.comments)).count l +
      (textsAll (cs.flatMap Prod.snd)).count l := by
  induction cs with
  | nil => rfl
  | cons c rest ih =>
    simp only [List.map_cons, List.flatMap_cons, allLines, textsAll_append, List.count_append] at ih ⊢
    omega

/-- No body is in both containers, and none is in neither. -/
theorem count_bodies (cs : List Overload) : (textsAll (cs.flatMap Prod.snd)).count l =
    (textsAll ((cs.filter fun c => !isVariadic c.1).flatMap Prod.snd)).count l +
      (textsAll ((cs.filter fun c => isVariadic c.1).flatMap Prod.snd)).count l := by
  induction cs with
  | nil => rfl
  | cons c rest ih =>
    cases hv : isVariadic c.1 <;>
      simp only [List.filter_cons, hv, Bool.not_true, Bool.not_false, Bool.false_eq_true, if_true,
        if_false, List.flatMap_cons, textsAll_append, List.count_append] at ih ⊢ <;>
      omega

theorem count_whens (cs : List Overload) : (textsAll (cs.flatMap Prod.snd)).count l ≤
    (textsAll (cs.flatMap fun c =>
      [Layout.line ("when " ++ toString c.1.params.length), overloadLayout c])).count l := by
  induction cs with
  | nil => exact Nat.le_refl _
  | cons c rest ih =>
    simp only [List.flatMap_cons, textsAll_append, textsAll, overloadLayout, Layout.texts,
      List.count_append] at ih ⊢
    omega

theorem count_elseLayoutOf (variadic : Option Overload) :
    (textsAll (variadic.toList.flatMap Prod.snd)).count l ≤
      (elseLayoutOf variadic).texts.count l := by
  cases variadic with
  | none => exact Nat.zero_le _
  | some c =>
    simp only [elseLayoutOf, Option.toList_some, List.flatMap_cons, List.flatMap_nil,
      List.append_nil, overloadLayout, Layout.texts, textsAll, textsAll_append, List.count_append]
    omega

/-- Constructors that are collected are all written. -/
theorem count_dispatchLayout (ho : o.comments = true) {cs : List Overload} {s : Overloads}
    (h : s.Holds cs) : (textsAll (cs.flatMap allLines)).count l ≤
      (textsAll (dispatchLayout o (cs.map Prod.fst) s)).count l := by
  have hwhens := count_whens (l := l) s.fixed
  have helse := count_elseLayoutOf (l := l) s.variadic
  rw [h.variadic] at helse
  rw [h.fixed] at hwhens
  rw [count_allLines, count_bodies]
  simp only [dispatchLayout, h.fixed, ho, textsAll, textsAll_append, Layout.texts,
    List.count_append] at hwhens ⊢
  omega

theorem written_arrangedLayout (ho : o.comments = true) {name : String} {cs : List Overload}
    {lines : List Layout} (h : arrangedLayout o name cs = .ok lines) :
    (textsAll (cs.flatMap allLines)).count l ≤ (textsAll lines).count l := by
  by_cases hone : cs.length = 1
  · obtain ⟨c, rfl⟩ := List.length_eq_one_iff.mp hone
    cases h
    simp only [singleLayout, ho, allLines, List.flatMap_cons, List.flatMap_nil, List.append_nil,
      textsAll, textsAll_append, Layout.texts, List.count_append]
    omega
  · rw [arrangedLayout_of_length_ne_one hone] at h
    obtain ⟨s, hs, rfl⟩ := Flow.map_eq_ok.mp h
    exact count_dispatchLayout ho (holds_of_foldlM hs)

end

/-! ## Static members -/

section

variable {l : String} {o : Options} {m : Module}

/-- The comments of the element at a place, if there is one. -/
def textsAt {α : Type} (f : α → List String) (xs : List α) (i : Nat) : List String :=
  (xs[i]?.map f).getD []

theorem flatMap_textsAt {α : Type} (f : α → List String) (xs : List α) :
    (List.range xs.length).flatMap (textsAt f xs) = xs.flatMap f := by
  induction xs with
  | nil => rfl
  | cons x xs ih =>
    rw [List.length_cons, List.range_succ_eq_map, List.flatMap_cons, List.flatMap_map,
      List.flatMap_cons, ← ih]
    rfl

/-- The comments of a static member and its body. -/
def staticTexts (m : Module) : StaticMember → List String
  | .field index => textsAt Field.comments m.staticFields index
  | .constant index => textsAt Constant.comments m.constants index
  | .block index => textsAt StaticBlock.commentTexts m.staticBlocks index

/-- The comments of a static member in switch groups that nothing reaches. -/
def staticDeadTexts (mode : Flow.ClosureMode) (m : Module) : StaticMember → List String
  | .field _ | .constant _ => []
  | .block index => textsAt (·.body.deadTexts mode) m.staticBlocks index

theorem written_staticLayout (ho : o.comments = true) (member : StaticMember) {lines : List Layout}
    (h : staticLayout o m member = .ok lines) :
    Written l lines (staticTexts m member) (staticDeadTexts o.closure m member) := by
  have hcomments : ∀ texts, Written l (commentLayout o.comments texts) texts [] := fun texts => by
    rw [ho]
    exact written_commentLayout texts
  cases member with
  | field index =>
    rw [staticLayout_field] at h
    simp only [staticTexts, staticDeadTexts, textsAt]
    cases hf : m.staticFields[index]? with
    | none => exact .nil
    | some f =>
      rw [hf] at h
      cases h
      exact (hcomments f.comments).append_lines _
  | constant index =>
    rw [staticLayout_constant] at h
    simp only [staticTexts, staticDeadTexts, textsAt]
    cases hc : m.constants[index]? with
    | none => exact .nil
    | some c =>
      rw [hc] at h
      cases h
      exact (hcomments c.comments).append_lines _
  | block index =>
    rw [staticLayout_block] at h
    simp only [staticTexts, staticDeadTexts, textsAt]
    cases hb : m.staticBlocks[index]? with
    | none => exact .nil
    | some b =>
      rw [hb] at h
      obtain ⟨stmts, hstmts, rfl⟩ := Flow.map_eq_ok.mp h
      exact (hcomments b.comments).append (written_normalizedBody ho hstmts)

theorem flatMap_staticTexts (m : Module) : m.staticMembers.flatMap (staticTexts m) =
    m.staticFields.flatMap Field.comments ++ m.constants.flatMap Constant.comments ++
      m.staticBlocks.flatMap StaticBlock.commentTexts := by
  simp only [Module.staticMembers, List.flatMap_append, List.flatMap_map]
  exact congrArg₂ _ (congrArg₂ _ (flatMap_textsAt _ _) (flatMap_textsAt _ _)) (flatMap_textsAt _ _)

theorem flatMap_staticDeadTexts (mode : Flow.ClosureMode) (m : Module) :
    m.staticMembers.flatMap (staticDeadTexts mode m) =
      m.staticBlocks.flatMap (·.body.deadTexts mode) := by
  simp only [Module.staticMembers, List.flatMap_append, List.flatMap_map, staticDeadTexts]
  simp only [List.flatMap_eq_nil_iff.mpr fun _ _ => rfl, List.nil_append]
  exact flatMap_textsAt _ _

end

/-! ## Modules -/

section

variable {l : String} {o : Options} {m : Module} {g : Graph}

theorem written_constructorsSection (ho : o.comments = true) {sections : List (List Layout)}
    (h : constructorsSection o m = .ok sections) :
    Written l sections.flatten (m.constructors.flatMap Constructor.commentTexts)
      (m.constructors.flatMap (·.body.deadTexts o.closure)) := by
  cases hempty : m.constructors.isEmpty with
  | true =>
    rw [List.isEmpty_iff.mp hempty]
    exact .nil
  | false =>
    rw [constructorsSection_eq hempty] at h
    obtain ⟨cs, hcs, h⟩ := Flow.bind_eq_ok.mp h
    obtain ⟨lines, hlines, rfl⟩ := Flow.map_eq_ok.mp h
    rw [List.flatten_singleton]
    have hwritten := Written.mapM (l := l) allLines hcs fun c _ a ha => written_overloadOf ho ha
    exact hwritten.mono (written_arrangedLayout ho hlines)

/-- Static members that are numbered in order are all written. -/
theorem written_staticsSection (ho : o.comments = true) (hm : m.InOrder)
    {sections : List (List Layout)} (h : staticsSection o m = .ok sections) :
    Written l sections.flatten
      (m.staticFields.flatMap Field.comments ++ m.constants.flatMap Constant.comments ++
        m.staticBlocks.flatMap StaticBlock.commentTexts)
      (m.staticBlocks.flatMap (·.body.deadTexts o.closure)) := by
  unfold staticsSection at h
  split at h
  · rename_i hnone
    have hempty : m.staticMembers = [] := by
      have := hm.perm
      rw [List.isEmpty_iff.mp hnone] at this
      exact this.nil_eq.symm
    rw [← flatMap_staticTexts, ← flatMap_staticDeadTexts, hempty]
    exact .nil
  · obtain ⟨parts, hparts, rfl⟩ := Flow.map_eq_ok.mp h
    have hwritten := Written.mapM_flatten (l := l) hparts fun member _ lines hlines =>
      written_staticLayout ho member hlines
    rw [List.flatten_singleton, ← flatMap_staticTexts, ← flatMap_staticDeadTexts]
    exact hwritten.perm (hm.perm.flatMap_right _) (hm.perm.flatMap_right _)

/-- A module writes its comments around those of the modules inside it. -/
theorem written_moduleLayout (ho : o.comments = true) (hm : m.InOrder) {nested : List (List Layout)}
    {texts lost : List String} (hnested : Written l nested.flatten texts lost) {lines : List Layout}
    (h : moduleLayout o m nested = .ok lines) :
    Written l lines (m.commentTexts ++ texts) (m.unwritten o.closure ++ lost) := by
  obtain ⟨constructors, hc, h⟩ := Flow.bind_eq_ok.mp h
  obtain ⟨methods, hmethods, h⟩ := Flow.bind_eq_ok.mp h
  obtain ⟨statics, hs, h⟩ := Flow.bind_eq_ok.mp h
  cases h
  have hconstructors := written_constructorsSection (l := l) ho hc
  have hmethods : Written l methods.flatten (m.methods.flatMap Method.commentTexts)
      (m.methods.flatMap (·.body.deadTexts o.closure)) :=
    Written.mapM_flatten hmethods fun method _ lines hlines => written_methodLayout ho hlines
  have hstatics := written_staticsSection (l := l) ho hm hs
  have hcomments := written_commentLayout (l := l) m.comments
  have hloose : Written l (sectionIf (o.comments && !m.bodyComments.isEmpty)
      (commentLayout o.comments m.bodyComments)).flatten m.bodyComments [] := by
    rw [ho]
    cases hb : m.bodyComments with
    | nil => exact .nil
    | cons text rest => exact (written_commentLayout (text :: rest)).append_lines []
  unfold Written at *
  simp only [frameLayout, ho, Module.commentTexts, Module.unwritten, textsAll, Layout.texts,
    textsAll_append, textsAll_joinSections, List.flatten_append, List.map_append, List.map_nil,
    List.count_append, List.count_nil] at *
  omega

theorem textsAt_modules (f : Module → List String) (g : Graph) (k : ModuleId) :
    textsAt f g.modules.toList k = ((g.get? k).map f).getD [] := by
  rw [textsAt, Array.getElem?_toList, Graph.get?]

/-- The walk from a module writes the comments of every module that it meets. -/
theorem written_graphLayout (hlinked : g.Linked) (ho : o.comments = true)
    (hg : ∀ k m, g.get? k = some m → m.InOrder) (id : ModuleId) {lines : List Layout}
    (h : graphLayout o g id = .ok lines) :
    Written l lines ((g.visits id).flatMap (textsAt Module.commentTexts g.modules.toList))
      ((g.visits id).flatMap (textsAt (Module.unwritten o.closure) g.modules.toList)) := by
  rw [graphLayout_eq] at h
  obtain ⟨nested, hnested, h⟩ := Flow.bind_eq_ok.mp h
  have hinside := Written.mapM_flatten (l := l) hnested fun child hchild lines hlines =>
    have := Links.lt_of_mem_nested hchild
    written_graphLayout hlinked ho hg child hlines
  rw [Graph.visits_eq, List.flatMap_cons, List.flatMap_cons, List.flatMap_assoc, List.flatMap_assoc,
    textsAt_modules, textsAt_modules]
  cases hm : g.get? id with
  | none =>
    have hnone : g.nested id = [] := by
      rw [List.eq_nil_iff_forall_not_mem]
      intro child hchild
      have hlt := Links.lt_of_mem_nested hchild
      have hsize := Graph.get?_eq_none_iff.mp hm
      rw [hlinked.size] at hlt
      simp only [ModuleId] at *
      omega
    rw [hnone]
    exact .nil
  | some m =>
    rw [hm] at h
    exact written_moduleLayout ho (hg id m hm) hinside h
termination_by g.links.size - id
decreasing_by simp only [ModuleId] at *; omega

theorem count_packageLayout (lines : List Layout) : ∀ package : List String,
    (textsAll lines).count l ≤ (textsAll (packageLayout lines package)).count l
  | [] => Nat.le_refl _
  | segment :: rest => by
    have ih := count_packageLayout lines rest
    simp only [packageLayout, textsAll, Layout.texts, List.count_append]
    omega

/-- Laying out a unit writes the comments of its graph. -/
theorem written_unitLayout (hlinked : g.Linked) (ho : o.comments = true)
    (hg : ∀ k m, g.get? k = some m → m.InOrder) {lines : List Layout}
    (h : unitLayout o g = .ok lines) : Written l lines g.commentTexts (g.unwritten o.closure) := by
  obtain ⟨roots, hroots, rfl⟩ := Flow.map_eq_ok.mp h
  have hwalk := Written.mapM_flatten (l := l) hroots fun id _ lines hlines =>
    written_graphLayout hlinked ho hg id hlines
  rw [← List.flatMap_assoc, ← List.flatMap_assoc] at hwalk
  have hperm : ∀ f : Module → List String, (g.walk.flatMap (textsAt f g.modules.toList)).Perm
      (g.modules.toList.flatMap f) := fun f => by
    rw [← flatMap_textsAt f, Array.length_toList]
    exact (Graph.perm_range_visits hlinked).flatMap_right _
  have hmodules := hwalk.perm (hperm Module.commentTexts) (hperm (Module.unwritten o.closure))
  have hpackage := count_packageLayout (l := l) (joinSections roots) g.package
  rw [textsAll_joinSections] at hpackage
  have hcomments := written_commentLayout (l := l) g.comments
  unfold Written at *
  simp only [unitFrame, ho, Graph.commentTexts, Graph.unwritten, textsAll_append, List.map_append,
    List.map_nil, List.count_append, List.count_nil] at *
  omega

end

/-! ## Rows of comments -/

theorem pieces_hash (cs : List Char) :
    ∃ row ended more, Text.pieces ('#' :: cs) = ('#' :: row, ended) :: more := by
  rw [Text.pieces, if_neg (by decide)]
  cases Text.pieces cs with
  | nil => exact ⟨[], false, [], rfl⟩
  | cons piece more => exact ⟨piece.1, piece.2, more, rfl⟩

theorem lineOf_hash (row : List Char) (ended : Bool) :
    ∃ rest, Text.lineOf ('#' :: row, ended) = '#' :: rest := by
  cases ended with
  | false => exact ⟨row, rfl⟩
  | true =>
    rw [Text.lineOf, Text.dropReturn]
    split
    · rename_i hlast
      cases row with
      | nil => cases hlast
      | cons c row => exact ⟨(c :: row).dropLast, rfl⟩
    · exact ⟨row, rfl⟩

theorem commentLine_eq (text : String) : ∃ cs, (commentLine text).toList = '#' :: cs := by
  unfold commentLine
  split
  · exact ⟨_, by rw [String.toList_append]; rfl⟩
  · exact ⟨_, by rw [String.toList_append]; rfl⟩

/-- The first row of a comment begins with `#`. -/
theorem commentRows_eq (text : String) :
    ∃ row more, commentRows text = ('#' :: row) :: more := by
  obtain ⟨cs, hcs⟩ := commentLine_eq text
  obtain ⟨row, ended, more, hpieces⟩ := pieces_hash cs
  obtain ⟨rest, hline⟩ := lineOf_hash row ended
  have hne : commentLine text ≠ "" := by
    intro h
    rw [h] at hcs
    cases hcs
  have hshown : Text.isBlank (String.ofList ('#' :: rest)) = false := by
    rw [Text.isBlank, String.toList_ofList, List.all_cons]
    rfl
  refine ⟨rest, more.map fun piece => Text.bare (Text.shownText (String.ofList
    (Text.lineOf piece))).toList, ?_⟩
  rw [commentRows, Text.lineRows, Text.shownLines, if_neg hne, Text.lines, hcs, hpieces]
  simp only [List.map_cons, List.map_map, hline, Function.comp_def, Text.shownText, hshown,
    Bool.false_eq_true, if_false, String.toList_ofList]
  rfl

end Ruby

/-! ## The comments of a tree -/

open Program Ruby

theorem convert_eq_ok {s : Settings} {tree : Node} {out : String} (h : convert s tree = .ok out) :
    ∃ g written, Graph.ofTree .ruby tree = .ok g ∧ takeUnit s.options g = .ok written ∧
      (Layout.writeAll written.1 { indentWidth := s.indentWidth }).out = out := by
  unfold convert at h
  cases hg : Graph.ofTree .ruby tree with
  | error e => rw [hg] at h; cases h
  | ok g =>
    cases hl : takeUnit s.options g with
    | error e => simp [hg, hl, Except.mapError, bind, Except.bind] at h
    | ok written =>
      refine ⟨g, written, rfl, hl, ?_⟩
      simpa [hg, hl, Except.mapError, bind, Except.bind, pure, Except.pure] using h

/-- **The comments of a tree are written.** Where comments are asked for, the rows of the text that a
tree is converted to are made of blocks; each comment of the tree, as often as it stands there, is one
of the blocks, beginning with `#`, or one of those that are left out. -/
theorem convert_writes_comments {s : Settings} {tree : Node} {out : String}
    (hs : s.emitComments = true) (h : convert s tree = .ok out) :
    ∃ g, Graph.ofTree .ruby tree = .ok g ∧ ∃ blocks, Text.rows out = blocks.flatten ∧
      (tree.commentTexts.map commentRows).Subperm
        ((g.unwritten s.closureMode).map commentRows ++ blocks) ∧
      ∀ text ∈ tree.commentTexts, ∃ row more, commentRows text = ('#' :: row) :: more := by
  obtain ⟨g, written, hg, hl, rfl⟩ := convert_eq_ok h
  obtain ⟨u, hu, rfl⟩ := ofTree_eq_ok hg
  have tidy := Grammar.tidy_of_readUnit hu
  have hsound := sound_ofUnit .ruby tidy
  have built := wellBuilt_of_sound hsound (listed_ofUnit .ruby tidy)
  have hperm := (perm_commentTexts_ofUnit .ruby u).trans (Grammar.perm_commentTexts_readUnit hu)
  obtain ⟨blocks, hrows, hblocks⟩ := Layout.rows_writeAll written.1
    (e := { indentWidth := s.indentWidth }) rfl rfl
  refine ⟨_, hg, blocks, hrows, ?_, fun text _ => commentRows_eq text⟩
  rw [built.taking] at hl
  obtain ⟨lines, hlayout, rfl⟩ := Flow.map_eq_ok.mp hl
  have hlines : (tree.commentTexts.map commentLine).Subperm
      (((Graph.ofUnit .ruby u).unwritten s.closureMode).map commentLine ++
        Layout.textsAll lines) := by
    rw [List.subperm_ext_iff]
    intro l _
    have hwritten : Written l lines _ _ :=
      written_unitLayout (o := s.options) hsound.linked hs built.inOrder hlayout
    rw [← (hperm.map commentLine).count_eq, List.count_append]
    exact hwritten
  have hmapped := Multiset.map_le_map (f := Text.lineRows) (Multiset.coe_le.mpr hlines)
  rw [Multiset.map_coe, Multiset.map_coe, Multiset.coe_le, List.map_append, List.map_map,
    List.map_map] at hmapped
  exact hmapped.trans ((List.Subperm.refl _).append hblocks.subperm)

/-- A class with comments in front of it, of a static field, of a field and of two constructors, and in
a switch whose first group falls through into the second; the third has no label. -/
def diary : Node :=
  Phrase.node "compilationUnit" [Phrase.node "typeDeclaration" [Phrase.comment "// a diary",
    Phrase.typeDeclaration [] (Phrase.classDeclaration "Diary" [] none []
      [Phrase.comment "// shared", Phrase.field ["static"] "int" [("count", none)],
        Phrase.comment "// pages", Phrase.field [] "int" [("pages", none)],
        Phrase.comment "// empty", Phrase.constructor [] "Diary" [] [],
        Phrase.comment "// filled", Phrase.constructor [] "Diary" [("int", "n")]
          [Phrase.comment "// set", Phrase.expressionStatement "pages = n"],
        Phrase.method [] "void" "turn" [("int", "n")] (some [Phrase.switchStatement "n"
          [([some "1"], [Phrase.comment "// one", Phrase.expressionStatement "pages = 1"]),
            ([none], [Phrase.comment "// rest", Phrase.breakStatement none]),
            ([], [Phrase.comment "// never", Phrase.expressionStatement "pages = 0"])]])])]]

theorem convert_writes_comments_diary : ∃ out g, convert {} diary = .ok out ∧
    Graph.ofTree .ruby diary = .ok g ∧ g.unwritten .compatible = ["// pages", "// never"] ∧
    ∃ blocks, Text.rows out = blocks.flatten ∧
      (["// a diary", "// shared", "// pages", "// empty", "// filled", "// set", "// one", "// rest",
        "// never"].map commentRows).Subperm
        ((g.unwritten .compatible).map commentRows ++ blocks) := by
  have htexts : diary.commentTexts = ["// a diary", "// shared", "// pages", "// empty", "// filled",
      "// set", "// one", "// rest", "// never"] := by decide +kernel
  have hok : (convert {} diary).toOption.isSome := by decide +kernel
  have hlost : (Graph.ofTree .ruby diary).toOption.map (Graph.unwritten .compatible) =
      some ["// pages", "// never"] := by decide +kernel
  cases h : convert {} diary with
  | error e => rw [h] at hok; cases hok
  | ok out =>
    obtain ⟨g, hg, blocks, hrows, hblocks, -⟩ := convert_writes_comments (s := {}) rfl h
    rw [hg] at hlost
    rw [← htexts]
    exact ⟨out, g, rfl, hg, Option.some.inj hlost, blocks, hrows, hblocks⟩

/-- A class with a comment in front of its only field. -/
def noted : Node :=
  Phrase.compilationUnit none [] [Phrase.typeDeclaration [] (Phrase.classDeclaration "A" [] none []
    [Phrase.comment "// note", Phrase.field [] "int" [("x", none)]])]

/-- The comment in front of a field is not written, though comments are asked for: no row of the text
is its row. -/
theorem convert_omits_field_comment : noted.commentTexts = ["// note"] ∧
    commentRows "// note" = ["# note".toList] ∧
    (convert { emitComments := true } noted).toOption =
      some "class A\n  def initialize\n    @x = 0\n  end\nend\n" ∧
    "# note".toList ∉ Text.rows "class A\n  def initialize\n    @x = 0\n  end\nend\n" := by
  decide +kernel

end Rubify
