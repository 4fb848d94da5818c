import Rubify.Text.Word

/-!
# Expressions as read

An expression is its list of tokens. An increment or decrement is accepted only as the whole
expression, in front of or behind a variable, field or array element; the target has no operator
that also gives a value, so one inside a larger expression is refused. An expression carries the
evidence that this was checked.
-/

namespace Rubify.Syntax

/-- Whether a token is an increment or a decrement. -/
def isStep (token : String) : Bool :=
  token = "++" || token = "--"

/-- Scans a dotted path of names with indices. `wantName` says that a name must follow, `depth` how
many brackets are open; inside brackets anything but an increment may stand. -/
def scanPath (wantName : Bool) (depth : Nat) : List String → Bool
  | [] => !wantName && depth = 0
  | token :: rest =>
    if depth > 0 then
      if isStep token then false
      else if token = "[" then scanPath false (depth + 1) rest
      else if token = "]" then scanPath false (depth - 1) rest
      else scanPath false depth rest
    else if wantName then Text.isName token && scanPath false 0 rest
    else if token = "." then scanPath true 0 rest
    else if token = "[" then scanPath false 1 rest
    else false

/-- Whether tokens spell something that can be assigned to: `a`, `this.a.b`, `items[i + 1]`. -/
def isAssignable (tokens : List String) : Bool :=
  scanPath true 0 tokens

/-- An increment in front of something assignable. -/
def stepBefore? (tokens : List String) : Option (String × List String) :=
  match tokens with
  | [] => none
  | op :: target => if isStep op && isAssignable target then some (op, target) else none

/-- An increment behind something assignable. -/
def stepAfter? (tokens : List String) : Option (String × List String) :=
  match tokens.getLast? with
  | none => none
  | some op =>
    if isStep op && isAssignable tokens.dropLast then some (op, tokens.dropLast) else none

/-- The increment that tokens are as a whole, and what is incremented. -/
def splitStep? (tokens : List String) : Option (String × List String) :=
  (stepBefore? tokens).or (stepAfter? tokens)

/-- The first increment of tokens that are not one as a whole. -/
def innerStep? (tokens : List String) : Option String :=
  if (splitStep? tokens).isSome then none else tokens.find? isStep

/-- What an increment inside an expression is reported as. -/
def innerStepText (op : String) (tokens : List String) : String :=
  "`" ++ op ++ "` inside the expression `" ++ " ".intercalate tokens ++ "`"

/-- An expression. -/
inductive Expr
  /-- Tokens without increments, or an increment as a whole. -/
  | whole (tokens : List String) (h : innerStep? tokens = none)
  /-- Tokens that mean nothing. -/
  | bare (tokens : List String)
  deriving DecidableEq, Repr

/-- The expression that tokens spell, or the increment that stands inside it. -/
def Expr.ofTokens (tokens : List String) : Except String Expr :=
  match h : innerStep? tokens with
  | some op => .error op
  | none => .ok (.whole tokens h)

theorem Expr.ofTokens_whole {tokens : List String} (h : innerStep? tokens = none) :
    Expr.ofTokens tokens = .ok (.whole tokens h) := by
  unfold Expr.ofTokens
  split
  · rename_i heq
    rw [h] at heq
    cases heq
  · rfl

theorem Expr.ofTokens_of_innerStep? {tokens : List String} {op : String}
    (h : innerStep? tokens = some op) : Expr.ofTokens tokens = .error op := by
  unfold Expr.ofTokens
  split
  · rename_i heq
    rw [h] at heq
    cases heq
    rfl
  · rename_i heq
    rw [h] at heq
    cases heq

/-- The tokens of an expression. -/
def Expr.tokens : Expr → List String
  | .whole tokens _ | .bare tokens => tokens

/-! ## Where increments stand -/

theorem isStep_iff {token : String} : isStep token = true ↔ token = "++" ∨ token = "--" := by
  rw [isStep, Bool.or_eq_true, decide_eq_true_eq, decide_eq_true_eq]

theorem not_isStep_of_isName {token : String} (h : Text.isName token = true) :
    isStep token = false := by
  cases hstep : isStep token with
  | false => rfl
  | true =>
    rcases isStep_iff.mp hstep with rfl | rfl
    · exact absurd h (by decide +kernel)
    · exact absurd h (by decide +kernel)

/-- A path goes on behind its first token, which is no increment. -/
theorem scanPath_cons {wantName : Bool} {depth : Nat} {token : String} {rest : List String}
    (h : scanPath wantName depth (token :: rest) = true) :
    isStep token = false ∧ ∃ wantName depth, scanPath wantName depth rest = true := by
  rw [scanPath] at h
  split at h
  · by_cases hstep : isStep token = true
    · rw [if_pos hstep] at h
      cases h
    · rw [if_neg hstep] at h
      refine ⟨Bool.eq_false_iff.mpr hstep, ?_⟩
      repeat' split at h
      all_goals exact ⟨_, _, h⟩
  · split at h
    · obtain ⟨hname, h⟩ := Bool.and_eq_true_iff.mp h
      exact ⟨not_isStep_of_isName hname, _, _, h⟩
    · split at h
      · rename_i hdot
        exact ⟨hdot ▸ rfl, _, _, h⟩
      · split at h
        · rename_i hbracket
          exact ⟨hbracket ▸ rfl, _, _, h⟩
        · cases h

/-- Nothing assignable holds an increment. -/
theorem not_isStep_of_scanPath {tokens : List String} : ∀ {wantName : Bool} {depth : Nat},
    scanPath wantName depth tokens = true → ∀ token ∈ tokens, isStep token = false := by
  induction tokens with
  | nil => exact fun _ token htoken => absurd htoken List.not_mem_nil
  | cons first rest ih =>
    intro wantName depth h
    obtain ⟨hfirst, _, _, hrest⟩ := scanPath_cons h
    exact List.forall_mem_cons.mpr ⟨hfirst, ih hrest⟩

/-- What is split off is an increment, at one end of something assignable. -/
theorem splitStep?_eq_some {tokens target : List String} {op : String}
    (h : splitStep? tokens = some (op, target)) :
    isStep op = true ∧ isAssignable target = true ∧
      (tokens = op :: target ∨ tokens = target ++ [op]) := by
  rw [splitStep?] at h
  rcases Option.or_eq_some_iff.mp h with h | ⟨-, h⟩
  · unfold stepBefore? at h
    split at h
    · cases h
    · split at h
      · rename_i hstep
        cases h
        obtain ⟨hop, htarget⟩ := Bool.and_eq_true_iff.mp hstep
        exact ⟨hop, htarget, Or.inl rfl⟩
      · cases h
  · unfold stepAfter? at h
    split at h
    · cases h
    · rename_i hlast
      obtain ⟨front, rfl⟩ := List.getLast?_eq_some_iff.mp hlast
      rw [List.dropLast_concat] at h
      split at h
      · rename_i hstep
        cases h
        obtain ⟨hop, htarget⟩ := Bool.and_eq_true_iff.mp hstep
        exact ⟨hop, htarget, Or.inr rfl⟩
      · cases h

theorem splitStep?_length {tokens target : List String} {op : String}
    (h : splitStep? tokens = some (op, target)) : target.length < tokens.length := by
  obtain ⟨-, -, rfl | rfl⟩ := splitStep?_eq_some h
  · exact Nat.lt_succ_self _
  · rw [List.length_append, List.length_singleton]
    exact Nat.lt_succ_self _

/-- Tokens without increments are not one as a whole. -/
theorem splitStep?_eq_none {tokens : List String} (h : ∀ token ∈ tokens, isStep token = false) :
    splitStep? tokens = none := by
  cases hsplit : splitStep? tokens with
  | none => rfl
  | some split =>
    obtain ⟨op, target⟩ := split
    obtain ⟨hop, -, rfl | rfl⟩ := splitStep?_eq_some hsplit
    · exact absurd ((h op List.mem_cons_self).symm.trans hop) Bool.false_ne_true
    · exact absurd ((h op (by simp)).symm.trans hop) Bool.false_ne_true

end Rubify.Syntax
