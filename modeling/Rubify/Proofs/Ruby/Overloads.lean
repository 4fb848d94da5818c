import Rubify.Proofs.Ruby.Taking

/-!
# Collecting constructors

The constructors of a class are put into two containers one after another: those that take one number of
arguments, and the one that takes any further number. A constructor that cannot be told apart from an
earlier one is rejected (`Overlap`). What the containers hold is said by the list of all constructors so
far (`Overloads.Holds`), for one constructor in `holds_add` and for all of them in `foldlM_add_cases`.

Bodies are written before, and find their constructors by their place. `mapM_overloadOf` says that this
gives each constructor its own body.

Headline:
* **`foldlM_add_cases`**: constructors are collected iff no two of them overlap.
-/

namespace Rubify.Ruby

open Program

/-! ## Constructors that overlap -/

/-- Whether the constructor ends in a variadic parameter. -/
def endsVariadic (c : Constructor) : Bool :=
  c.params.getLast?.any Param.variadic

/-- The number of arguments that a constructor is for, if it is for one only. -/
def countOf (c : Constructor) : Option Nat :=
  if endsVariadic c then none else some c.params.length

/-- Two constructors that both end in a variadic parameter, or both do not and take the same number of
arguments. -/
def Overlap (c d : Constructor) : Prop :=
  endsVariadic c = true ∧ endsVariadic d = true ∨
    endsVariadic c = false ∧ endsVariadic d = false ∧ c.params.length = d.params.length

instance (c d : Constructor) : Decidable (Overlap c d) :=
  inferInstanceAs (Decidable (_ ∨ _))

/-- Two of the constructors overlap. -/
def Ambiguous (constructors : List Constructor) : Prop :=
  ∃ (i j : Nat) (c d : Constructor), i < j ∧ constructors[i]? = some c ∧
    constructors[j]? = some d ∧ Overlap c d

theorem overlap_iff {c d : Constructor} : Overlap c d ↔ countOf c = countOf d := by
  unfold Overlap countOf
  cases endsVariadic c <;> cases endsVariadic d <;> simp

theorem not_ambiguous_iff {constructors : List Constructor} :
    ¬ Ambiguous constructors ↔ constructors.Pairwise fun c d => ¬ Overlap c d := by
  rw [List.pairwise_iff_getElem]
  constructor
  · intro h i j hi hj hij hover
    exact h ⟨i, j, _, _, hij, List.getElem?_eq_getElem hi, List.getElem?_eq_getElem hj, hover⟩
  · rintro h ⟨i, j, c, d, hij, hc, hd, hover⟩
    obtain ⟨hi, rfl⟩ := List.getElem?_eq_some_iff.mp hc
    obtain ⟨hj, rfl⟩ := List.getElem?_eq_some_iff.mp hd
    exact h i j hi hj hij hover

/-! ## The two containers -/

/-- The containers hold these constructors, each in the one that it belongs to, in order. -/
structure Overloads.Holds (s : Overloads) (cs : List Overload) : Prop where
  fixed : s.fixed = cs.filter fun c => !isVariadic c.1
  variadic : s.variadic.toList = cs.filter fun c => isVariadic c.1

section

variable {s : Overloads} {before cs : List Overload} {c : Overload} {name : String}

theorem holds_empty : Overloads.Holds {} [] :=
  ⟨rfl, rfl⟩

/-- **One constructor.** It is put into its container, unless it overlaps with one that is there. -/
theorem holds_add (h : s.Holds before) (name : String) (c : Overload) :
    (∃ b ∈ before, Overlap b.1 c.1) ∧
        (∃ construct, s.add name c = .error (.unsupported construct)) ∨
      (∀ b ∈ before, ¬ Overlap b.1 c.1) ∧ ∃ s', s.add name c = .ok s' ∧ s'.Holds (before ++ [c]) := by
  have hends : ∀ d : Constructor, endsVariadic d = isVariadic d := fun _ => rfl
  obtain ⟨fixed, variadic⟩ := s
  obtain ⟨hfixed, hvariadic⟩ := h
  simp only at hfixed hvariadic
  subst hfixed
  simp only [Overlap, hends]
  cases hv : isVariadic c.1 with
  | true =>
    cases variadic with
    | some d =>
      have hd : d ∈ before.filter fun b => isVariadic b.1 := hvariadic ▸ List.mem_singleton_self d
      obtain ⟨hmem, hd⟩ := List.mem_filter.mp hd
      refine .inl ⟨⟨d, hmem, .inl ⟨hd, rfl⟩⟩, "more than one variadic constructor in " ++ name, ?_⟩
      rw [Overloads.add, if_pos hv]
      rfl
    | none =>
      have hnone : ∀ b ∈ before, ¬ isVariadic b.1 = true :=
        List.filter_eq_nil_iff.mp hvariadic.symm
      refine .inr ⟨by simpa using hnone, ⟨before.filter fun b => !isVariadic b.1, some c⟩, ?_, ?_, ?_⟩
      · rw [Overloads.add, if_pos hv]
        rfl
      · simp [hv]
      · simp [hv, ← hvariadic]
  | false =>
    have hsame : ((before.filter fun b => !isVariadic b.1).any fun d =>
        d.1.params.length = c.1.params.length) = true ↔
        ∃ b ∈ before, isVariadic b.1 = false ∧ b.1.params.length = c.1.params.length := by
      simp only [List.any_eq_true, List.mem_filter, decide_eq_true_iff, Bool.not_eq_true', and_assoc]
    by_cases hany : ∃ b ∈ before, isVariadic b.1 = false ∧ b.1.params.length = c.1.params.length
    · obtain ⟨b, hmem, hb, hlength⟩ := hany
      refine .inl ⟨⟨b, hmem, .inr ⟨hb, rfl, hlength⟩⟩,
        "constructors of " ++ name ++ " overloaded on parameter types", ?_⟩
      rw [Overloads.add, if_neg (by simp [hv]), if_pos (hsame.mpr ⟨b, hmem, hb, hlength⟩)]
      rfl
    · refine .inr ⟨by simpa using hany, ⟨(before.filter fun b => !isVariadic b.1) ++ [c], variadic⟩,
        ?_, ?_, ?_⟩
      · rw [Overloads.add, if_neg (by simp [hv]), if_neg (hany ∘ hsame.mp)]
        rfl
      · simp [hv]
      · simp [hv, ← hvariadic]

/-- **All constructors.** They are collected, or two of them overlap. -/
theorem foldlM_add_cases (h : s.Holds before) (name : String) (cs : List Overload) :
    (¬ ((∀ b ∈ before, ∀ c ∈ cs, ¬ Overlap b.1 c.1) ∧ cs.Pairwise fun c d => ¬ Overlap c.1 d.1)) ∧
        (∃ construct, cs.foldlM (Overloads.add name) s = .error (.unsupported construct)) ∨
      ((∀ b ∈ before, ∀ c ∈ cs, ¬ Overlap b.1 c.1) ∧ cs.Pairwise fun c d => ¬ Overlap c.1 d.1) ∧
        ∃ s', cs.foldlM (Overloads.add name) s = .ok s' ∧ s'.Holds (before ++ cs) := by
  induction cs generalizing s before with
  | nil => exact .inr ⟨by simp, s, rfl, by rwa [List.append_nil]⟩
  | cons c cs ih =>
    rw [List.foldlM_cons]
    rcases holds_add h name c with ⟨⟨b, hb, hover⟩, construct, hadd⟩ | ⟨hno, s', hadd, hs'⟩
    · refine .inl ⟨fun hapart => hapart.1 b hb c List.mem_cons_self hover, construct, ?_⟩
      rw [hadd]
      rfl
    · have hsplit : ((∀ b ∈ before, ∀ d ∈ c :: cs, ¬ Overlap b.1 d.1) ∧
          (c :: cs).Pairwise fun c d => ¬ Overlap c.1 d.1) ↔
          ((∀ b ∈ before ++ [c], ∀ d ∈ cs, ¬ Overlap b.1 d.1) ∧
            cs.Pairwise fun c d => ¬ Overlap c.1 d.1) := by
        simp only [List.forall_mem_append, List.forall_mem_cons, List.pairwise_cons]
        constructor
        · rintro ⟨hbefore, hc, hcs⟩
          exact ⟨⟨fun b hb => (hbefore b hb).2, hc, List.forall_mem_nil _⟩, hcs⟩
        · rintro ⟨⟨hbefore, hc, -⟩, hcs⟩
          exact ⟨fun b hb => ⟨hno b hb, hbefore b hb⟩, hc, hcs⟩
      have hlist : before ++ c :: cs = before ++ [c] ++ cs := List.append_cons before c cs
      rw [hsplit, hlist, hadd]
      exact ih hs'

theorem holds_of_foldlM (h : cs.foldlM (Overloads.add name) {} = .ok s) : s.Holds cs := by
  rcases foldlM_add_cases holds_empty name cs with ⟨-, construct, herror⟩ | ⟨-, s', hok, hs'⟩
  · rw [h] at herror
    cases herror
  · rw [h] at hok
    cases hok
    exact hs'

end

/-! ## Bodies at their places -/

/-- A constructor with the lines of its own body. -/
def overloadOf (o : Options) (m : Module) (c : Constructor) : Except RenderError Overload :=
  (fun stmts => (c, constructorBodyLayout o m c stmts)) <$>
    normalizedBody o (m.name ++ "#initialize") c.body

section

variable {o : Options} {m : Module}

theorem overloadOf_eq_ok {c : Constructor} {a : Overload} : overloadOf o m c = .ok a ↔
    ∃ stmts, normalizedBody o (m.name ++ "#initialize") c.body = .ok stmts ∧
      a = (c, constructorBodyLayout o m c stmts) := by
  unfold overloadOf
  cases normalizedBody o (m.name ++ "#initialize") c.body <;>
    simp [Functor.map, Except.map, eq_comm]

/-- **Each constructor finds its own body.** -/
theorem mapM_overloadOf (o : Options) (m : Module) (constructors : List Constructor) :
    (fun cs => (cs.map Prod.fst, cs.map Prod.snd)) <$> constructors.mapM (overloadOf o m) =
      (fun stmts => (constructors, List.zipWith (constructorBodyLayout o m) constructors stmts)) <$>
        constructors.mapM fun c => normalizedBody o (m.name ++ "#initialize") c.body := by
  induction constructors with
  | nil => rfl
  | cons c rest ih =>
    rw [List.mapM_cons, List.mapM_cons, overloadOf]
    cases normalizedBody o (m.name ++ "#initialize") c.body with
    | error e => rfl
    | ok stmts =>
      -- Both sides put `c` and its body in front of what the rest gives.
      let front (p : List Constructor × List (List Layout)) :=
        (c :: p.1, constructorBodyLayout o m c stmts :: p.2)
      calc _ = front <$> (fun cs => (cs.map Prod.fst, cs.map Prod.snd)) <$>
            rest.mapM (overloadOf o m) := by cases rest.mapM (overloadOf o m) <;> rfl
        _ = front <$> (fun stmts => (rest, List.zipWith (constructorBodyLayout o m) rest stmts)) <$>
            rest.mapM fun c => normalizedBody o (m.name ++ "#initialize") c.body := by rw [ih]
        _ = _ := by
            cases rest.mapM fun c => normalizedBody o (m.name ++ "#initialize") c.body <;> rfl

theorem fst_of_mapM_overloadOf {constructors : List Constructor} {cs : List Overload}
    (h : constructors.mapM (overloadOf o m) = .ok cs) : cs.map Prod.fst = constructors := by
  have hboth := mapM_overloadOf o m constructors
  rw [h] at hboth
  cases hstmts : constructors.mapM fun c => normalizedBody o (m.name ++ "#initialize") c.body with
  | error e => rw [hstmts] at hboth; cases hboth
  | ok stmts =>
    rw [hstmts] at hboth
    exact congrArg Prod.fst (Except.ok.inj hboth)

end

/-- The lines of constructors with their bodies. -/
def arrangedLayout (o : Options) (name : String) (cs : List Overload) :
    Except RenderError (List Layout) :=
  overloadsLayout o name (cs.map Prod.fst) (cs.map Prod.snd)

section

variable {o : Options} {m : Module} {name : String}

theorem arrangedLayout_singleton (c : Overload) :
    arrangedLayout o name [c] = .ok (singleLayout o c) := rfl

theorem arrangedLayout_of_length_ne_one {cs : List Overload} (h : cs.length ≠ 1) :
    arrangedLayout o name cs =
      dispatchLayout o (cs.map Prod.fst) <$> cs.foldlM (Overloads.add name) {} := by
  have hzip : (cs.map Prod.fst).zip (cs.map Prod.snd) = cs := by
    rw [List.zip_map', List.map_id'']
    intro c
    rfl
  unfold arrangedLayout overloadsLayout
  split
  · rename_i c body hfst hsnd
    rw [← List.length_map (f := Prod.fst), hfst] at h
    exact absurd rfl h
  · rw [hzip, map_eq_pure_bind]

/-- The section of the constructors, by constructors with their bodies. -/
theorem constructorsSection_eq (h : m.constructors.isEmpty = false) : constructorsSection o m =
    m.constructors.mapM (overloadOf o m) >>= fun cs => (fun lines => [lines]) <$>
      arrangedLayout o m.name cs := by
  rw [constructorsSection, takeConstructors_of_ne_nil h]
  calc _ = ((fun stmts => (m.constructors,
            List.zipWith (constructorBodyLayout o m) m.constructors stmts)) <$>
          m.constructors.mapM fun c => normalizedBody o (m.name ++ "#initialize") c.body) >>=
        fun p => (fun lines => [lines]) <$> overloadsLayout o m.name p.1 p.2 := by
        cases m.constructors.mapM fun c => normalizedBody o (m.name ++ "#initialize") c.body with
        | error e => rfl
        | ok stmts =>
          show Prod.fst <$> _ <$> (overloadsLayout o m.name m.constructors
            (List.zipWith (constructorBodyLayout o m) m.constructors stmts) >>= _) =
              _ <$> overloadsLayout o m.name m.constructors
                (List.zipWith (constructorBodyLayout o m) m.constructors stmts)
          cases overloadsLayout o m.name m.constructors
            (List.zipWith (constructorBodyLayout o m) m.constructors stmts) <;> rfl
    _ = _ := by
        rw [← mapM_overloadOf]
        cases m.constructors.mapM (overloadOf o m) <;> rfl

end

end Rubify.Ruby
