import Rubify.Grammar.Unit
import Rubify.Proofs.Comments.Reader
import Rubify.Proofs.Program.Declared

/-!
# Parameter lists as read

The grammar lets a variadic parameter stand anywhere, but a reader of parameters stops at the first
one it meets, and what is left of the list is then refused. So in everything that is read only the last
parameter of a list is variadic, and its type has a dimension.

`Ensures r P` says that every success of a reader has a property. It has one rule for each way to put
readers together; a step whose result does not matter is passed with `ensures_then`.

Headline:
* **`tidy_of_readUnit`**: the parameter lists of a unit that was read are tidy.
-/

namespace Rubify

variable {n : Node} {α β : Type}

namespace Reader

/-- Whenever the reader succeeds, its result has the property. -/
def Ensures (r : Reader n α) (P : α → Prop) : Prop :=
  ∀ (p : Place n) (a : α) (q : Place n), r p = .ok (a, q) → P a

variable {P : α → Prop} {Q : β → Prop}

theorem ensures_pure {a : α} (h : P a) : Ensures (pure a : Reader n α) P := by
  intro p b q hr
  cases hr
  exact h

theorem Ensures.bind {x : Reader n α} {f : α → Reader n β} (hx : Ensures x P)
    (hf : ∀ a, P a → Ensures (f a) Q) : Ensures (x >>= f) Q := by
  intro p b q h
  obtain ⟨a, p₁, h₁, h₂⟩ := bind_eq_ok.mp h
  exact hf a (hx p a p₁ h₁) p₁ b q h₂

/-- Whatever the first step gives, the rest ensures the property. -/
theorem ensures_then {x : Reader n α} {f : α → Reader n β} (hf : ∀ a, Ensures (f a) Q) :
    Ensures (x >>= f) Q := by
  intro p b q h
  obtain ⟨a, p₁, -, h₂⟩ := bind_eq_ok.mp h
  exact hf a p₁ b q h₂

theorem ensures_ite {c : Bool} {x y : Reader n α} (hx : Ensures x P) (hy : Ensures y P) :
    Ensures (if c = true then x else y) P := by
  split
  · exact hx
  · exact hy

/-- Two ways to a value that does not matter, and one way on from it. -/
theorem ensures_join {c : Bool} {x y : Reader n α} {f : α → Reader n β}
    (hf : ∀ a, Ensures (f a) Q) : Ensures (if c = true then x >>= f else y >>= f) Q :=
  ensures_ite (ensures_then hf) (ensures_then hf)

theorem ensures_throw {e : BuildError} : Ensures (throw e : Reader n α) P := by
  intro p a q h
  cases h

theorem ensures_map {f : α → β} {x : Reader n α} (hx : Ensures x P) (hf : ∀ a, P a → Q (f a)) :
    Ensures (f <$> x) Q := by
  rw [map_eq_pure_bind]
  exact hx.bind fun a ha => ensures_pure (hf a ha)

theorem ensures_inside {kinds : List String} {body : (c : Node) → c ∈ n.children → Reader c α}
    (hb : ∀ c hc, Ensures (body c hc) P) : Ensures (inside kinds body) P := by
  intro p a q h
  unfold inside at h
  split at h
  · cases h
  · dsimp only at h
    split at h
    · split at h
      · cases h
      · rename_i a' q' hbody
        split at h
        · cases h
        · cases h
          exact hb _ _ _ _ _ hbody
    · cases h

theorem ensures_repeating {step : Reader n (Option α)} (hs : Ensures step fun o => ∀ a ∈ o, P a)
    (p : Place n) (items : List α) (q : Place n) (h : repeating step p = .ok (items, q)) :
    ∀ a ∈ items, P a := by
  rw [repeating] at h
  split at h
  · cases h
  · cases h
    exact fun a ha => (List.not_mem_nil ha).elim
  · rename_i a q' hstep
    have hfirst := hs _ _ _ hstep a rfl
    split at h
    · rename_i hlt
      split at h
      · cases h
      · rename_i more r hmore
        cases h
        exact List.forall_mem_cons.mpr ⟨hfirst, ensures_repeating hs q' more q hmore⟩
    · cases h
      exact List.forall_mem_singleton.mpr hfirst
termination_by p.left.length

theorem ensures_gather {step : Reader n (Option α)} (hs : Ensures step fun o => ∀ a ∈ o, P a) :
    Ensures (gather step) fun items => ∀ a ∈ items, P a :=
  fun p items q h => ensures_repeating hs p items q h

section

variable {kind : String} {body : (c : Node) → c ∈ n.children → Reader c α}

theorem ensures_optional (hb : ∀ c hc, Ensures (body c hc) P) :
    Ensures (Reader.optional kind body) fun o => ∀ a ∈ o, P a := by
  refine ensures_then fun next => ensures_ite ?_ (ensures_pure fun a ha => by cases ha)
  refine (ensures_inside hb).bind fun a ha => ensures_pure fun b hb => ?_
  cases hb
  exact ha

theorem ensures_many (hb : ∀ c hc, Ensures (body c hc) P) :
    Ensures (many kind body) fun items => ∀ a ∈ items, P a :=
  ensures_gather (ensures_optional hb)

theorem ensures_separated {separator : String} {item : Reader n α} (hi : Ensures item P) :
    Ensures (separated separator item) fun items => ∀ a ∈ items, P a := by
  refine hi.bind fun first hfirst => ?_
  refine (ensures_gather (P := P) ?_).bind fun more hmore =>
    ensures_pure (List.forall_mem_cons.mpr ⟨hfirst, hmore⟩)
  refine ensures_then fun found => ensures_ite ?_ (ensures_pure fun a ha => by cases ha)
  refine hi.bind fun a ha => ensures_pure fun b hb => ?_
  cases hb
  exact ha

end

end Reader

namespace Grammar

open MonadWalk Reader Syntax

/-! ## Parameters -/

theorem variadicLast_cons {p : Parameter} {params : List Parameter} (hp : p.variadic = false)
    (h : VariadicLast params) : VariadicLast (p :: params) := by
  obtain ⟨hlast, harray⟩ := h
  constructor
  · cases params with
    | nil => exact fun q hq => (List.not_mem_nil hq).elim
    | cons q rest =>
      rw [List.dropLast_cons_cons]
      exact List.forall_mem_cons.mpr ⟨hp, hlast⟩
  · intro q hq hv
    rcases List.mem_cons.mp hq with rfl | hq
    · rw [hp] at hv
      cases hv
    · exact harray q hq hv

/-- A variadic parameter ends the list. -/
theorem ensures_parametersIn (d : Dialect) (n : Node) :
    Ensures (parametersIn d n) VariadicLast := by
  rw [parametersIn]
  refine ensures_then fun _ => ensures_then fun declared => ?_
  refine ensures_inside fun c hc => ?_
  refine ensures_then fun variadic => ensures_then fun ident => ?_
  have hc := Node.count_lt_of_mem hc
  refine ensures_ite (ensures_pure ?_) (ensures_then fun found => ensures_ite ?_ ?_)
  · refine ⟨fun p hp => (List.not_mem_nil hp).elim, List.forall_mem_singleton.mpr fun _ => ?_⟩
    simp only [TypeRef.addDims]
    omega
  · refine Ensures.bind (ensures_inside fun r hr => ?_) fun more hmore =>
      ensures_pure (variadicLast_cons rfl hmore)
    have hr := Node.count_lt_of_mem hr
    exact ensures_parametersIn d r
  · exact ensures_pure (variadicLast_cons rfl ⟨nofun, nofun⟩)
termination_by n.count

theorem ensures_parameters (d : Dialect) : Ensures (parameters d : Reader n _) VariadicLast := by
  refine ensures_inside fun _ _ => ?_
  refine ensures_then fun _ => ?_
  refine (ensures_optional fun c _ => ensures_parametersIn d c).bind fun params hparams => ?_
  refine ensures_then fun _ => ensures_pure ?_
  cases params with
  | none => exact ⟨nofun, nofun⟩
  | some params => exact hparams params rfl

theorem ensures_signatureRest (d : Dialect) (comments : List String) (head : MethodHead) :
    Ensures (signatureRest d comments head : Reader n _) fun s => VariadicLast s.params := by
  refine (ensures_parameters d).bind fun _ hparams => ?_
  refine ensures_then fun _ => ensures_then fun _ => ?_
  exact ensures_pure hparams

theorem ensures_interfaceMethod (d : Dialect) (kind : String) (comments : List String)
    (head : MethodHead) :
    Ensures (interfaceMethod d kind comments head : Reader n _) InterfaceMember.Tidy := by
  refine ensures_inside fun _ _ => ?_
  refine (ensures_signatureRest d comments head).bind fun s hs => ?_
  refine ensures_then fun _ => ensures_pure ?_
  rw [InterfaceMember.Tidy]
  exact hs

/-! ## Statements -/

theorem statementsTidy_comments (comments : List String) :
    StatementsTidy (comments.map .comment) := by
  rw [statementsTidy_iff]
  intro s hs
  obtain ⟨text, -, rfl⟩ := List.mem_map.mp hs
  rw [Statement.Tidy]
  trivial

theorem statementsTidy_append {body more : List Statement} (h : StatementsTidy body)
    (hmore : StatementsTidy more) : StatementsTidy (body ++ more) := by
  rw [statementsTidy_iff] at h hmore ⊢
  exact fun s hs => (List.mem_append.mp hs).elim (h s) (hmore s)

theorem statementsTidy_flatten {bodies : List (List Statement)}
    (h : ∀ body ∈ bodies, StatementsTidy body) : StatementsTidy bodies.flatten := by
  rw [statementsTidy_iff]
  intro s hs
  obtain ⟨body, hbody, hs⟩ := List.mem_flatten.mp hs
  exact statementsTidy_iff.mp (h body hbody) s hs

theorem statementsTidy_branchOf {s : Option Statement} (h : ∀ a ∈ s, a.Tidy) :
    StatementsTidy (branchOf s) := by
  unfold branchOf
  split
  · have hblock := h _ rfl
    rw [Statement.Tidy] at hblock
    exact hblock
  · rw [statementsTidy_iff]
    exact List.forall_mem_singleton.mpr (h _ rfl)
  · rw [StatementsTidy]
    trivial

theorem ensures_blockRest {statement : (c : Node) → c ∈ n.children → Reader c (List Statement)}
    (hs : ∀ c hc, Ensures (statement c hc) StatementsTidy) :
    Ensures (blockRest statement) StatementsTidy := by
  refine (ensures_many hs).bind fun _ hbodies => ?_
  refine ensures_then fun _ => ensures_then fun comments => ?_
  exact ensures_pure (statementsTidy_append (statementsTidy_flatten hbodies)
      (statementsTidy_comments comments))

theorem ensures_typeBody {kind : String} {member : (c : Node) → c ∈ n.children → Reader c α}
    {P : α → Prop} (hm : ∀ c hc, Ensures (member c hc) P) :
    Ensures (typeBody kind member) fun b => ∀ m ∈ b.members, P m := by
  refine ensures_then fun _ => ensures_then fun _ => ?_
  refine (ensures_many hm).bind fun _ hmembers => ?_
  refine ensures_then fun _ => ensures_then fun _ => ?_
  exact ensures_pure hmembers

theorem ensures_refuseNext {kinds : List String} {P : α → Prop} :
    Ensures (refuseNext kinds : Reader n α) P :=
  ensures_then fun _ => ensures_throw

/-! ## Declarations, members and statements -/

-- As the readers call each other on children, so do their lemmas.
mutual

theorem ensures_declarationIn (d : Dialect) (n : Node) :
    Ensures (declarationIn d n) fun declared => declared.2.Tidy := by
  rw [declarationIn]
  refine ensures_then fun comments => ensures_then fun words => ensures_then fun _ => ?_
  refine ensures_ite ?_ (ensures_then fun _ => ensures_ite ?_ ensures_refuseNext)
  · refine Ensures.bind (ensures_inside fun c hc => ?_) fun decl hdecl => ensures_pure hdecl
    have := Node.count_lt_of_mem hc
    exact ensures_classIn d _ c
  · refine Ensures.bind (ensures_inside fun c hc => ?_) fun decl hdecl => ensures_pure hdecl
    have := Node.count_lt_of_mem hc
    exact ensures_interfaceIn d c
termination_by n.count

theorem ensures_classIn (d : Dialect) (static : Bool) (n : Node) :
    Ensures (classIn d static n) TypeDecl.Tidy := by
  rw [classIn]
  refine ensures_then fun _ => ensures_ite (ensures_inside fun c hc => ?_)
    (ensures_inside fun c hc => ?_)
  · have := Node.count_lt_of_mem hc
    exact ensures_enumIn d c
  · have hc := Node.count_lt_of_mem hc
    have body : Ensures (inside ["classBody"] fun b _ => classBodyIn d b : Reader c _) BodyTidy := by
      refine ensures_inside fun b hb => ?_
      have := Node.count_lt_of_mem hb
      exact ensures_classBodyIn d b
    refine ensures_then fun _ => ensures_then fun typeName => ensures_then fun generics => ?_
    refine ensures_then fun _ => ensures_join fun superclass => ensures_then fun _ => ?_
    refine ensures_join fun interfaces => ?_
    refine body.bind fun b hb => ?_
    refine ensures_pure ?_
    rw [TypeDecl.Tidy]
    exact hb
termination_by n.count

theorem ensures_classBodyIn (d : Dialect) (n : Node) : Ensures (classBodyIn d n) BodyTidy := by
  rw [classBodyIn]
  intro p body q h
  have members : ∀ m ∈ body.members, m.Tidy := by
    refine ensures_typeBody (fun c hc => ?_) p body q h
    have := Node.count_lt_of_mem hc
    exact ensures_memberIn d c
  rw [BodyTidy, membersTidy_iff]
  exact members
termination_by n.count

theorem ensures_memberIn (d : Dialect) (n : Node) : Ensures (memberIn d n) Member.Tidy := by
  rw [memberIn]
  refine ensures_then fun comments => ensures_then fun _ => ?_
  refine ensures_ite (ensures_pure ?_) (ensures_then fun _ => ?_)
  · rw [Member.Tidy]
    trivial
  have member : Ensures (do
      let words ← modifiers d
      inside ["memberDecl"] fun c _ => memberDeclIn d comments words c : Reader n _)
      Member.Tidy := by
    refine ensures_then fun words => ensures_inside fun c hc => ?_
    have := Node.count_lt_of_mem hc
    exact ensures_memberDeclIn d comments words c
  have block : Ensures (inside ["block"] fun c _ => blockIn d c : Reader n _) StatementsTidy := by
    refine ensures_inside fun c hc => ?_
    have := Node.count_lt_of_mem hc
    exact ensures_blockIn d c
  refine ensures_ite (ensures_then fun _ => ensures_ite ?_ (ensures_then fun _ => member)) member
  refine block.bind fun body hbody => ensures_pure ?_
  rw [Member.Tidy]
  exact hbody
termination_by n.count

theorem ensures_memberDeclIn (d : Dialect) (comments words : List String) (n : Node) :
    Ensures (memberDeclIn d comments words n) Member.Tidy := by
  rw [memberDeclIn]
  refine ensures_then fun kind => ?_
  split
  · refine ensures_inside fun c hc => ?_
    refine ensures_then fun generics => ?_
    refine ensures_inside fun r hr => ?_
    refine ensures_then fun _ => ?_
    refine ensures_ite ?_ ?_
    · refine ensures_then fun _ => ensures_inside fun b hb => ?_
      have hc := Node.count_lt_of_mem hc
      have hr := Node.count_lt_of_mem hr
      have hb := Node.count_lt_of_mem hb
      exact ensures_constructorIn d comments generics b
    · refine ensures_then fun returns => ensures_then fun method => ensures_inside fun b hb => ?_
      have hc := Node.count_lt_of_mem hc
      have hr := Node.count_lt_of_mem hr
      have hb := Node.count_lt_of_mem hb
      exact ensures_methodIn d comments words _ b
  · refine ensures_inside fun c hc => ?_
    refine ensures_then fun declared => ensures_then fun _ => ?_
    refine ensures_ite ?_ ?_
    · refine ensures_inside fun _ _ => ?_
      refine ensures_then fun fields => ensures_then fun _ => ensures_pure ?_
      rw [Member.Tidy]
      trivial
    · refine ensures_inside fun m hm => ensures_then fun method => ensures_inside fun b hb => ?_
      have hc := Node.count_lt_of_mem hc
      have hm := Node.count_lt_of_mem hm
      have hb := Node.count_lt_of_mem hb
      exact ensures_methodIn d comments words _ b
  · refine ensures_then fun _ => ensures_then fun method => ensures_inside fun b hb => ?_
    have hb := Node.count_lt_of_mem hb
    exact ensures_methodIn d comments words _ b
  · refine ensures_then fun _ => ensures_inside fun b hb => ?_
    have hb := Node.count_lt_of_mem hb
    exact ensures_constructorIn d comments [] b
  · refine ensures_inside fun c hc => ?_
    have hc := Node.count_lt_of_mem hc
    refine (ensures_interfaceIn d c).bind fun decl hdecl => ensures_pure ?_
    rw [Member.Tidy]
    exact hdecl
  · refine ensures_inside fun c hc => ?_
    have hc := Node.count_lt_of_mem hc
    refine (ensures_classIn d _ c).bind fun decl hdecl => ensures_pure ?_
    rw [Member.Tidy]
    exact hdecl
  · exact ensures_refuseNext
termination_by n.count

theorem ensures_methodIn (d : Dialect) (comments words : List String) (head : MethodHead)
    (n : Node) : Ensures (methodIn d comments words head n) Member.Tidy := by
  rw [methodIn]
  refine (ensures_signatureRest d comments head).bind fun signature hparams => ?_
  have done : ∀ body, MethodTidy body → Ensures (pure (.method signature (words.contains "static")
      (words.contains "synchronized") body) : Reader n _) Member.Tidy := by
    intro body hbody
    refine ensures_pure ?_
    rw [Member.Tidy]
    exact ⟨hparams, hbody⟩
  refine ensures_then fun _ => ensures_ite ?_ ?_
  · refine Ensures.bind (ensures_pure ?_) done
    split <;> rw [MethodTidy] <;> trivial
  · refine Ensures.bind (ensures_inside fun c hc => ?_) done
    refine Ensures.bind (P := StatementsTidy) (ensures_inside fun b hb => ?_) fun body hbody =>
      ensures_pure ?_
    · have hc := Node.count_lt_of_mem hc
      have hb := Node.count_lt_of_mem hb
      exact ensures_blockIn d b
    · rw [MethodTidy]
      exact hbody
termination_by n.count

theorem ensures_constructorIn (d : Dialect) (comments generics : List String) (n : Node) :
    Ensures (constructorIn d comments generics n) Member.Tidy := by
  rw [constructorIn]
  refine (ensures_parameters d).bind fun params hparams => ?_
  refine ensures_then fun _ => ?_
  refine ensures_inside fun c hc => ?_
  refine ensures_then fun _ => ensures_then fun call => ?_
  refine (ensures_blockRest fun s hs => ?_).bind fun body hbody => ensures_pure ?_
  · have hc := Node.count_lt_of_mem hc
    have hs := Node.count_lt_of_mem hs
    exact ensures_blockStatementIn d s
  · rw [Member.Tidy]
    exact ⟨hparams, hbody⟩
termination_by n.count

theorem ensures_enumIn (d : Dialect) (n : Node) : Ensures (enumIn d n) TypeDecl.Tidy := by
  rw [enumIn]
  refine ensures_then fun _ => ensures_then fun typeName => ensures_then fun _ => ?_
  refine ensures_join fun interfaces => ?_
  refine ensures_inside fun c hc => ?_
  have hc := Node.count_lt_of_mem hc
  refine ensures_then fun _ => ensures_then fun opening => ?_
  refine (ensures_optional fun e he => ensures_separated
    (P := fun c : EnumConstant Member => ConstantBodyTidy c.body) ?_).bind
    fun constants hconstants => ?_
  · refine ensures_inside fun k hk => ?_
    have he := Node.count_lt_of_mem he
    have hk := Node.count_lt_of_mem hk
    exact ensures_enumConstantIn d k
  refine ensures_then fun _ => ?_
  refine (ensures_optional fun b hb => ensures_then fun _ =>
    ensures_many (P := Member.Tidy) fun m hm => ?_).bind fun members hmembers => ?_
  · have hb := Node.count_lt_of_mem hb
    have hm := Node.count_lt_of_mem hm
    exact ensures_memberIn d m
  refine ensures_then fun _ => ensures_then fun closing => ensures_pure ?_
  rw [TypeDecl.Tidy, BodyTidy, constantsTidy_iff, membersTidy_iff]
  constructor
  · cases constants with
    | none => exact fun c hc => (List.not_mem_nil hc).elim
    | some constants => exact hconstants constants rfl
  · cases members with
    | none => exact fun m hm => (List.not_mem_nil hm).elim
    | some members => exact hmembers members rfl
termination_by n.count

theorem ensures_enumConstantIn (d : Dialect) (n : Node) :
    Ensures (enumConstantIn d n) fun c => ConstantBodyTidy c.body := by
  rw [enumConstantIn]
  refine ensures_then fun comments => ensures_then fun _ => ensures_then fun constant => ?_
  refine ensures_then fun _ => ensures_join fun args => ?_
  refine (ensures_optional (P := BodyTidy) fun c hc => ?_).bind fun body hbody => ensures_pure ?_
  · have hc := Node.count_lt_of_mem hc
    exact ensures_classBodyIn d c
  · cases body with
    | none =>
      rw [ConstantBodyTidy]
      trivial
    | some body =>
      rw [ConstantBodyTidy]
      exact hbody body rfl
termination_by n.count

theorem ensures_interfaceIn (d : Dialect) (n : Node) :
    Ensures (interfaceIn d n) TypeDecl.Tidy := by
  rw [interfaceIn]
  refine ensures_then fun _ => ensures_ite (ensures_inside fun _ _ => ?_)
    (ensures_inside fun c hc => ?_)
  · refine ensures_then fun _ => ensures_then fun _ => ensures_then fun _ => ?_
    refine ensures_then fun _ => ensures_then fun _ => ensures_pure ?_
    rw [TypeDecl.Tidy]
    trivial
  · have hc := Node.count_lt_of_mem hc
    refine ensures_then fun _ => ensures_then fun typeName => ensures_then fun generics => ?_
    refine ensures_then fun _ => ensures_join fun parents => ?_
    refine Ensures.bind (ensures_inside fun b hb => ensures_typeBody (P := InterfaceMember.Tidy)
      fun m hm => ?_) fun body hbody => ensures_pure ?_
    · have hb := Node.count_lt_of_mem hb
      have hm := Node.count_lt_of_mem hm
      exact ensures_interfaceMemberIn d m
    · rw [TypeDecl.Tidy, interfaceTidy_iff]
      exact hbody
termination_by n.count

theorem ensures_interfaceMemberIn (d : Dialect) (n : Node) :
    Ensures (interfaceMemberIn d n) InterfaceMember.Tidy := by
  rw [interfaceMemberIn]
  refine ensures_then fun comments => ensures_then fun _ => ?_
  refine ensures_ite (ensures_pure ?_) ?_
  · rw [InterfaceMember.Tidy]
    trivial
  refine ensures_then fun words => ensures_inside fun c hc => ensures_then fun kind => ?_
  have hc := Node.count_lt_of_mem hc
  split
  · refine ensures_inside fun _ _ => ?_
    refine ensures_then fun declared => ensures_then fun member => ?_
    refine ensures_inside fun _ _ => ?_
    refine ensures_then fun _ => ?_
    refine ensures_ite (ensures_interfaceMethod d _ comments _) ?_
    refine ensures_then fun _ => ensures_then fun _ => ensures_pure ?_
    rw [InterfaceMember.Tidy]
    trivial
  · refine ensures_inside fun _ _ => ?_
    refine ensures_then fun generics => ensures_then fun returns => ensures_then fun method => ?_
    exact ensures_interfaceMethod d _ comments _
  · exact ensures_then fun _ => ensures_then fun method => ensures_interfaceMethod d _ comments _
  · refine ensures_inside fun s hs => ?_
    have hs := Node.count_lt_of_mem hs
    refine (ensures_interfaceIn d s).bind fun decl hdecl => ensures_pure ?_
    rw [InterfaceMember.Tidy]
    exact hdecl
  · refine ensures_inside fun s hs => ?_
    have hs := Node.count_lt_of_mem hs
    refine (ensures_classIn d _ s).bind fun decl hdecl => ensures_pure ?_
    rw [InterfaceMember.Tidy]
    exact hdecl
  · exact ensures_refuseNext
termination_by n.count

theorem ensures_blockIn (d : Dialect) (n : Node) : Ensures (blockIn d n) StatementsTidy := by
  rw [blockIn]
  refine ensures_then fun _ => ensures_blockRest fun c hc => ?_
  have hc := Node.count_lt_of_mem hc
  exact ensures_blockStatementIn d c
termination_by n.count

theorem ensures_blockStatementIn (d : Dialect) (n : Node) :
    Ensures (blockStatementIn d n) StatementsTidy := by
  have done : ∀ (comments : List String) statements, StatementsTidy statements →
      Ensures (pure (comments.map .comment ++ statements) : Reader n _) StatementsTidy :=
    fun comments statements h =>
      ensures_pure (statementsTidy_append (statementsTidy_comments comments) h)
  have one : ∀ {s : Statement}, s.Tidy → StatementsTidy [s] := fun h =>
    statementsTidy_iff.mpr (List.forall_mem_singleton.mpr h)
  have declared : Ensures (inside ["classOrInterfaceDeclaration"] fun c _ => do
      let (comments, decl) ← declarationIn d c
      return [Statement.type comments decl] : Reader n _) StatementsTidy := by
    refine ensures_inside fun c hc => ?_
    have hc := Node.count_lt_of_mem hc
    refine (ensures_declarationIn d c).bind fun decl hdecl => ensures_pure (one ?_)
    rw [Statement.Tidy]
    exact hdecl
  cases d with
  | ruby =>
    rw [blockStatementIn]
    refine ensures_then fun comments => ensures_then fun _ => ?_
    refine ensures_ite (declared.bind (done comments)) (ensures_then fun _ => ensures_ite ?_ ?_)
    · refine Ensures.bind (P := Statement.Tidy) ?_ fun s hs => Ensures.bind (ensures_pure (one hs))
        (done comments)
      refine ensures_inside fun _ _ => ensures_then fun _ => ensures_then fun _ => ensures_pure ?_
      rw [Statement.Tidy]
      trivial
    · refine Ensures.bind (P := fun s => ∀ a ∈ s, a.Tidy) (ensures_inside fun c hc => ?_)
        fun s hs => Ensures.bind (ensures_pure ?_) (done comments)
      · have hc := Node.count_lt_of_mem hc
        exact ensures_statementIn .ruby c
      · rw [statementsTidy_iff]
        exact fun a ha => hs a (Option.mem_toList.mp ha)
  | plain =>
    rw [blockStatementIn]
    refine ensures_then fun comments => ensures_then fun _ => ?_
    refine ensures_ite (declared.bind (done comments)) (ensures_then fun _ => ensures_ite ?_ ?_)
    · refine ensures_then fun args => Ensures.bind (ensures_pure (one ?_)) (done comments)
      rw [Statement.Tidy]
      trivial
    · refine Ensures.bind (P := Statement.Tidy) (ensures_inside fun c hc => ?_) fun s hs =>
        Ensures.bind (ensures_pure (one hs)) (done comments)
      have hc := Node.count_lt_of_mem hc
      exact ensures_plainStatementIn c
termination_by n.count

theorem ensures_statementIn (d : Dialect) (n : Node) :
    Ensures (statementIn d n) fun s => ∀ a ∈ s, a.Tidy := by
  rw [statementIn]
  have branch : Ensures (do
      let s ← inside ["statement"] fun c _ => statementIn d c
      return branchOf s : Reader n _) StatementsTidy := by
    refine Ensures.bind (P := fun s => ∀ a ∈ s, a.Tidy) (ensures_inside fun c hc => ?_) fun s hs =>
      ensures_pure (statementsTidy_branchOf hs)
    have hc := Node.count_lt_of_mem hc
    exact ensures_statementIn d c
  have one : ∀ {s : Statement}, s.Tidy →
      Ensures (pure (some s) : Reader n _) fun s => ∀ a ∈ s, a.Tidy := by
    intro s hs
    refine ensures_pure fun a ha => ?_
    cases ha
    exact hs
  refine ensures_then fun kind => ?_
  split
  · refine Ensures.bind (P := StatementsTidy) (ensures_inside fun c hc => ?_) fun body hbody =>
      one ?_
    · have hc := Node.count_lt_of_mem hc
      exact ensures_blockIn d c
    · rw [Statement.Tidy]
      exact hbody
  · refine ensures_then fun _ => ensures_then fun condition => ?_
    refine branch.bind fun thenBranch hthen => ?_
    refine ensures_then fun _ => ?_
    have done : ∀ elseBranch, ElseTidy elseBranch → Ensures
        (pure (some (Statement.ifThen condition thenBranch elseBranch)) : Reader n _)
        fun s => ∀ a ∈ s, a.Tidy := by
      intro elseBranch helse
      refine one ?_
      rw [Statement.Tidy]
      exact ⟨hthen, helse⟩
    refine ensures_ite (Ensures.bind (ensures_map branch fun body hbody => ?_) done)
      (Ensures.bind (ensures_pure ?_) done)
    · rw [ElseTidy]
      exact hbody
    · rw [ElseTidy]
      trivial
  · refine ensures_then fun _ => ensures_then fun condition => branch.bind fun body hbody => one ?_
    rw [Statement.Tidy]
    exact hbody
  · refine ensures_then fun _ => ensures_then fun value => ensures_then fun _ => ?_
    refine (ensures_optional fun c hc => ensures_many (P := fun g : SwitchGroup Statement =>
      StatementsTidy g.body) fun g hg => ?_).bind fun groups hgroups => ensures_then fun _ => one ?_
    · refine ensures_then fun labels => ?_
      refine (ensures_many (P := StatementsTidy) fun s hs => ?_).bind fun bodies hbodies =>
        ensures_pure (statementsTidy_flatten hbodies)
      have hc := Node.count_lt_of_mem hc
      have hg := Node.count_lt_of_mem hg
      have hs := Node.count_lt_of_mem hs
      exact ensures_blockStatementIn d s
    · rw [Statement.Tidy, groupsTidy_iff]
      cases groups with
      | none => exact fun g hg => (List.not_mem_nil hg).elim
      | some groups => exact hgroups groups rfl
  · refine ensures_then fun _ => ensures_then fun _ => ensures_join fun value => ?_
    refine ensures_then fun _ => one ?_
    rw [Statement.Tidy]
    trivial
  · refine ensures_then fun _ => ensures_then fun _ => ensures_then fun _ => one ?_
    rw [Statement.Tidy]
    trivial
  · refine ensures_then fun _ => ensures_then fun _ => ensures_join fun label => ?_
    refine ensures_then fun _ => one ?_
    rw [Statement.Tidy]
    trivial
  · exact ensures_then fun _ => ensures_pure fun a ha => by cases ha
  · refine ensures_then fun _ => ensures_then fun _ => one ?_
    rw [Statement.Tidy]
    trivial
  · refine ensures_then fun _ => ensures_then fun _ => branch.bind fun body hbody => one ?_
    rw [Statement.Tidy]
    exact hbody
  · exact ensures_refuseNext
termination_by n.count

theorem ensures_plainStatementIn (n : Node) : Ensures (plainStatementIn n) Statement.Tidy := by
  rw [plainStatementIn]
  refine ensures_then fun _ => ensures_ite (ensures_inside fun c hc => ?_) ?_
  · refine ensures_then fun _ => ?_
    refine (ensures_many (P := StatementsTidy) fun s hs => ?_).bind fun bodies hbodies => ?_
    · have hc := Node.count_lt_of_mem hc
      have hs := Node.count_lt_of_mem hs
      exact ensures_blockStatementIn .plain s
    · refine ensures_then fun _ => ensures_pure ?_
      rw [Statement.Tidy]
      exact statementsTidy_flatten hbodies
  · refine ensures_then fun _ => ensures_then fun _ => ensures_pure ?_
    rw [Statement.Tidy]
    trivial
termination_by n.count

end

theorem ensures_unit (d : Dialect) : Ensures (unit d : Reader n _) CompilationUnit.Tidy := by
  refine ensures_inside fun _ _ => ?_
  refine ensures_then fun _ => ensures_then fun _ => ensures_then fun _ => ?_
  refine (ensures_many (P := fun o => ∀ declared ∈ o, declared.2.Tidy) fun _ _ => ?_).bind
    fun types htypes => ensures_pure ?_
  · refine ensures_then fun _ => ensures_ite (ensures_pure fun a ha => by cases ha) ?_
    refine ensures_map (ensures_inside fun c _ => ensures_declarationIn d c)
      fun declared hdeclared a ha => ?_
    cases ha
    exact hdeclared
  · intro declared hmem
    obtain ⟨o, ho, heq⟩ := List.mem_filterMap.mp hmem
    exact htypes o ho declared heq

/-- **Every parameter list of a unit that was read is tidy.** -/
theorem tidy_of_readUnit {d : Dialect} {tree : Node} {u : CompilationUnit}
    (h : readUnit d tree = .ok u) : u.Tidy := by
  unfold readUnit at h
  cases hr : readTree tree (unit d) with
  | error e => rw [hr] at h; cases h
  | ok r =>
    obtain ⟨v, texts⟩ := r
    rw [hr] at h
    cases h
    unfold readTree at hr
    split at hr
    · cases hr
    · rename_i w p hw
      split at hr
      · cases hr
      · cases hr
        exact ensures_unit d _ v p hw

end Grammar

end Rubify
