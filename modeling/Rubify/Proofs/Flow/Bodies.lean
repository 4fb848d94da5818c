import Rubify.Flow.Normalize
import Mathlib.Data.List.Basic

/-!
# Bodies inside bodies

A statement holds further bodies: `bodies` lists the ones directly inside it. Everything that is
said of a body at any depth is said through that list:

* `body_induction` proves a property of every body from the property of the bodies inside it;
* `OccursVia into s body` says that `s` stands somewhere in `body`, where `into` tells which bodies
  the search enters: `Anywhere` enters all of them, `AtSwitch` and `OutsideLoops` leave some out;
* `AvoidsLabel` says that no labelled statement carries a label and no break names it.
-/

namespace Rubify.Flow

/-! ## The bodies directly inside a statement -/

/-- The bodies directly inside a statement, in order. -/
def Stmt.bodies : Stmt → List (List Stmt)
  | .block body | .loop _ body | .labeled _ body => [body]
  | .ifThen _ thenBranch elseBranch => thenBranch :: elseBranch.toList
  | .case _ branches => branches.map Branch.body
  | .comment _ | .other _ | .leave _ | .return _ | .raise _ => []

/-- **Induction on bodies**: what holds of the empty body, and of `s :: rest` whenever it holds of
`rest` and of every body directly inside `s`, holds of every body. -/
theorem body_induction {P : List Stmt → Prop} (nil : P [])
    (cons : ∀ s rest, (∀ b ∈ s.bodies, P b) → P rest → P (s :: rest)) (body : List Stmt) :
    P body := by
  -- the recursor of the nested type has a motive for every container a body can stand in
  refine @Stmt.rec_1 (fun s => ∀ b ∈ s.bodies, P b) P (fun e => ∀ b ∈ e.toList, P b)
    (fun branches => ∀ b ∈ branches.map Branch.body, P b) (fun branch => P branch.body)
    ?_ ?_ ?_ ?_ ?_ ?_ ?_ ?_ ?_ ?_ nil cons ?_ ?_ ?_ ?_ ?_ body
  all_goals simp_all [Stmt.bodies]

/-- Whether a statement is a loop. -/
def Stmt.isLoop : Stmt → Bool
  | .loop _ _ => true
  | _ => false

/-- Whether a statement is a switch. -/
def Stmt.isCase : Stmt → Bool
  | .case _ _ => true
  | _ => false

/-! ## Statements at any depth -/

/-- `s` stands in the body, directly or inside another of its statements; a body inside a statement
is searched if `into` says so. -/
inductive OccursVia (into : Stmt → List Stmt → Prop) (s : Stmt) : List Stmt → Prop
  | here {body : List Stmt} : s ∈ body → OccursVia into s body
  | inside {body inner : List Stmt} {t : Stmt} :
      t ∈ body → inner ∈ t.bodies → into t inner → OccursVia into s inner → OccursVia into s body

/-- Every body is searched. -/
def Anywhere (_ : Stmt) (_ : List Stmt) : Prop := True

/-- The bodies of loops and switches are not searched: what is left belongs to the switch around. -/
def AtSwitch (t : Stmt) (_ : List Stmt) : Prop := t.isLoop = false ∧ t.isCase = false

/-- The bodies of loops are not searched. -/
def OutsideLoops (t : Stmt) (_ : List Stmt) : Prop := t.isLoop = false

section

variable {into : Stmt → List Stmt → Prop} {s t : Stmt}

theorem not_occursVia_nil : ¬ OccursVia into s [] := by
  rintro (h | ⟨h, -, -, -⟩) <;> cases h

/-- What occurs in a body is its first statement, or occurs inside that or in the rest. -/
theorem occursVia_cons {rest : List Stmt} :
    OccursVia into s (t :: rest) ↔
      s = t ∨ (∃ b ∈ t.bodies, into t b ∧ OccursVia into s b) ∨ OccursVia into s rest := by
  constructor
  · rintro (h | ⟨h, hb, hi, ho⟩)
    · rcases List.mem_cons.mp h with h | h
      · exact Or.inl h
      · exact Or.inr (Or.inr (.here h))
    · rcases List.mem_cons.mp h with rfl | h
      · exact Or.inr (Or.inl ⟨_, hb, hi, ho⟩)
      · exact Or.inr (Or.inr (.inside h hb hi ho))
  · rintro (rfl | ⟨b, hb, hi, ho⟩ | (h | ⟨h, hb, hi, ho⟩))
    · exact .here List.mem_cons_self
    · exact .inside List.mem_cons_self hb hi ho
    · exact .here (List.mem_cons_of_mem t h)
    · exact .inside (List.mem_cons_of_mem t h) hb hi ho

theorem occursVia_append {xs ys : List Stmt} :
    OccursVia into s (xs ++ ys) ↔ OccursVia into s xs ∨ OccursVia into s ys := by
  induction xs with
  | nil => simp [not_occursVia_nil]
  | cons t xs ih => rw [List.cons_append, occursVia_cons, occursVia_cons, ih, or_assoc, or_assoc]

/-- A search that enters fewer bodies finds less. -/
theorem OccursVia.mono {into' : Stmt → List Stmt → Prop} {body : List Stmt}
    (h : OccursVia into s body) (hle : ∀ t b, into t b → into' t b) : OccursVia into' s body := by
  induction h with
  | here h => exact .here h
  | inside h hb hi _ ih => exact .inside h hb (hle _ _ hi) ih

end

/-! ## Labels -/

/-- No labelled statement of the body carries the label and no break names it, at any depth. -/
def AvoidsLabel (label : String) (body : List Stmt) : Prop :=
  (∀ inner, ¬ OccursVia Anywhere (.labeled label inner) body) ∧
    ¬ OccursVia Anywhere (.leave (some label)) body

theorem AvoidsLabel.rest {label : String} {s : Stmt} {rest : List Stmt}
    (h : AvoidsLabel label (s :: rest)) : AvoidsLabel label rest :=
  ⟨fun inner ho => h.1 inner (occursVia_cons.mpr (Or.inr (Or.inr ho))),
    fun ho => h.2 (occursVia_cons.mpr (Or.inr (Or.inr ho)))⟩

theorem AvoidsLabel.inside {label : String} {s : Stmt} {rest b : List Stmt}
    (h : AvoidsLabel label (s :: rest)) (hb : b ∈ s.bodies) : AvoidsLabel label b :=
  ⟨fun inner ho => h.1 inner (.inside List.mem_cons_self hb trivial ho),
    fun ho => h.2 (.inside List.mem_cons_self hb trivial ho)⟩

end Rubify.Flow
