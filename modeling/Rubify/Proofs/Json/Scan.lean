import Rubify.Json.Scan
import Mathlib.Data.List.Basic

/-!
# Reading back what was written as JSON

A scanner reads a text back if, in front of whatever follows, it takes exactly the text and gives the
value it was written for. `Reads` also covers values that are refused: then the scanner fails
whatever follows. Strings and lists are closed by a bracket of their own, so nothing is asked of what
follows.

* **`reads_string`**: a string literal reads as its text. Escapes are read back one character at a
  time (`read_writeChar`).
* **`reads_list`**: items divided by commas read as the list of their values, or not at all if one
  of them is refused.
-/

namespace Rubify.Json

open Text (Scan hexDigit?)

/-- In front of any rest, the scanner takes the characters and gives the value; without a value it
fails. -/
def Reads {α : Type} (scan : Scan α) (cs : List Char) (value : Option α) : Prop :=
  ∀ rest, scan (cs ++ rest) = value.map fun a => (a, rest)

/-! ## Strings -/

theorem hexDigit?_digitChar : ∀ n < 16, hexDigit? n.digitChar = some n := by decide

theorem toList_hex_of_lt {n : Nat} (h : n < 16) : (Text.hex n).toList = [n.digitChar] := by
  rw [Text.hex, String.toList_ofList, Nat.toDigits_of_lt_base h]

theorem toList_hex_of_ge {n : Nat} (h : 16 ≤ n) (h' : n < 32) :
    (Text.hex n).toList = ['1', (n % 16).digitChar] := by
  have hdiv : n / 16 = 1 := by omega
  rw [Text.hex, String.toList_ofList, Nat.toDigits_of_base_le (by decide) h, hdiv]
  rfl

/-- An escape of four hexadecimal digits below the surrogates is read as its character. -/
theorem read_hex4 {a b c d : Char} {n : Nat} (hn : hex4? a b c d = some n) (hlt : n < 0xd800)
    (rest : List Char) : read ('\\' :: 'u' :: a :: b :: c :: d :: rest) =
      (read rest).map fun p => (Char.ofNat n :: p.1, p.2) := by
  have hlow : isLowSurrogate n = false := by
    simp only [isLowSurrogate, Bool.and_eq_false_iff, decide_eq_false_iff_not]
    omega
  have hhigh : isHighSurrogate n = false := by
    simp only [isHighSurrogate, Bool.and_eq_false_iff, decide_eq_false_iff_not]
    omega
  rw [read, hn]
  cases read rest <;> simp [hlow, hhigh]

/-- A control character without a short escape is written by its number. -/
theorem read_control {n : Nat} (hn : n < 32) (rest : List Char) :
    read ((if n < 16 then "\\u000" ++ Text.hex n else "\\u00" ++ Text.hex n).toList ++ rest) =
      (read rest).map fun p => (Char.ofNat n :: p.1, p.2) := by
  have hzero : hexDigit? '0' = some 0 := by decide
  by_cases h : n < 16
  · rw [if_pos h, String.toList_append, toList_hex_of_lt h]
    refine read_hex4 (a := '0') (b := '0') (c := '0') ?_ (by omega) rest
    simp [hex4?, hzero, hexDigit?_digitChar n h]
  · have hdigit := hexDigit?_digitChar (n % 16) (Nat.mod_lt n (by decide))
    have hone : hexDigit? '1' = some 1 := by decide
    rw [if_neg h, String.toList_append, toList_hex_of_ge (by omega) hn]
    refine read_hex4 (a := '0') (b := '0') (c := '1') ?_ (by omega) rest
    simp only [hex4?, hzero, hone, hdigit, Option.bind_eq_bind, Option.bind_some, Option.pure_def,
      Option.some.injEq]
    omega

/-- A character that needs no escape is read as itself. -/
theorem read_plain {c : Char} (hquote : c ≠ '"') (hslash : c ≠ '\\') (hc : ¬ c.toNat < 32)
    (rest : List Char) : read (c :: rest) = (read rest).map fun p => (c :: p.1, p.2) := by
  rw [read.eq_def]
  split
  · contradiction
  · rename_i heq; cases heq; exact absurd rfl hquote
  · rename_i heq; cases heq; exact absurd rfl hslash
  · rename_i heq; cases heq; exact absurd rfl hslash
  · rename_i heq
    cases heq
    rw [if_neg (by simp [hc, hslash])]
    cases read rest <;> rfl

/-- **A written character is read back.** -/
theorem read_writeChar (c : Char) (rest : List Char) :
    read ((writeChar c).toList ++ rest) = (read rest).map fun p => (c :: p.1, p.2) := by
  have short : ∀ e, escaped? e = some c → e ≠ 'u' →
      read ('\\' :: e :: rest) = (read rest).map fun p => (c :: p.1, p.2) := by
    intro e he hu
    rw [read.eq_def]
    split
    · contradiction
    · rename_i heq; cases heq
    · rename_i heq; cases heq; exact absurd rfl hu
    · rename_i heq
      cases heq
      rw [he]
      cases read rest <;> rfl
    · rename_i hno heq; cases heq; exact (hno e rest rfl rfl).elim
  unfold writeChar
  split_ifs with h1 h2 h3 h4 h5 h6 h7 h8 h9
  · subst h1; exact short '"' (by decide) (by decide)
  · subst h2; exact short '\\' (by decide) (by decide)
  · subst h3; exact short 'n' (by decide) (by decide)
  · subst h4; exact short 'r' (by decide) (by decide)
  · subst h5; exact short 't' (by decide) (by decide)
  · refine short 'b' ?_ (by decide)
    rw [← Char.ofNat_toNat c, h6]
    decide
  · refine short 'f' ?_ (by decide)
    rw [← Char.ofNat_toNat c, h7]
    decide
  · have := read_control (n := c.toNat) (by omega) rest
    rwa [if_pos h8, Char.ofNat_toNat] at this
  · have := read_control h9 rest
    rwa [if_neg h8, Char.ofNat_toNat] at this
  · rw [show c.toString.toList = [c] by simp [Char.toString]]
    exact read_plain h1 h2 h9 rest

/-- The characters of a text, written one by one, are read up to the closing quote. -/
theorem read_flatMap_writeChar (cs rest : List Char) :
    read (cs.flatMap (fun c => (writeChar c).toList) ++ '"' :: rest) = some (cs, rest) := by
  induction cs with
  | nil => simp [read]
  | cons c cs ih =>
    rw [List.flatMap_cons, List.append_assoc, read_writeChar, ih]
    rfl

theorem toList_write (text : String) : (write text).toList =
    '"' :: (text.toList.flatMap (fun c => (writeChar c).toList) ++ ['"']) := by
  simp [write, String.toList_join, List.flatMap_map]

/-- The character is not white space. -/
abbrev Solid (c : Char) : Prop := (c = ' ' || c = '\n' || c = '\t' || c = '\r') = false

theorem skipSpace_cons {c : Char} (h : Solid c)
    (rest : List Char) : skipSpace (c :: rest) = c :: rest :=
  List.dropWhile_cons_of_neg (by simpa using h)

/-- **A string literal reads as its text.** -/
theorem reads_string (text : String) : Reads string (write text).toList (some text) := by
  intro rest
  rw [toList_write, List.cons_append, List.append_assoc, List.singleton_append, string,
    skipSpace_cons (by decide)]
  simp [read_flatMap_writeChar]

/-- A key is a string literal and a colon. -/
theorem reads_key (name : String) : Reads key ((write name).toList ++ [':']) (some name) := by
  intro rest
  rw [key, List.append_assoc, reads_string name, Option.map_some]
  simp only [Option.bind_eq_bind, Option.bind_some, List.singleton_append,
    skipSpace_cons (c := ':') (by decide)]
  rfl

/-! ## Lists -/

section

variable {α β : Type} {item : Scan α} {close : Char} {text : β → List Char} {value : β → Option α}

/-- Items divided by commas, up to the closing bracket. -/
theorem items_intercalate (hclose : Solid close) (hcomma : close ≠ ',') (rest : List Char) (xs : List β) :
    ∀ bound, xs ≠ [] → xs.length ≤ bound → (∀ x ∈ xs, Reads item (text x) (value x)) →
      items item close bound ([','].intercalate (xs.map text) ++ close :: rest) =
        (xs.mapM value).map fun as => (as, rest) := by
  induction xs with
  | nil => exact fun _ h => absurd rfl h
  | cons x more ih =>
    intro bound _ hbound hreads
    obtain ⟨bound, rfl⟩ : ∃ b, bound = b + 1 := ⟨bound - 1, by rw [List.length_cons] at hbound; omega⟩
    have hx := hreads x List.mem_cons_self
    cases more with
    | nil =>
      rw [List.map_singleton, List.intercalate_singleton, items, hx, List.mapM_cons]
      cases value x <;> simp [skipSpace_cons hclose, hcomma]
    | cons y more =>
      have hmore := ih bound (by simp) (by simpa using hbound) fun z hz =>
        hreads z (List.mem_cons_of_mem x hz)
      rw [List.map_cons, List.map_cons, List.intercalate_cons_cons, List.append_assoc,
        List.append_assoc, items, hx, List.mapM_cons]
      rw [List.map_cons] at hmore
      cases value x with
      | none => rfl
      | some a =>
        simp only [Option.map_some, Option.bind_eq_bind, Option.bind_some, List.singleton_append,
          skipSpace_cons (c := ',') (by decide), if_true, hmore]
        cases List.mapM value (y :: more) <;> rfl

theorem length_le_intercalate (xs : List (List Char)) :
    xs.length ≤ ([','].intercalate xs).length + 1 := by
  induction xs with
  | nil => exact Nat.zero_le _
  | cons x more ih =>
    cases more with
    | nil => simp
    | cons y more =>
      rw [List.intercalate_cons_cons, List.length_append, List.length_append, List.length_cons]
      simp only [List.length_singleton]
      omega

/-- **A list behind its opening bracket reads as the list of its values**, or not at all if one item
does not. Its first item begins with a character that is neither white space nor the bracket. -/
theorem reads_list (close : Char) (text : β → List Char) (hclose : Solid close)
    (hcomma : close ≠ ',') {x : β} {more : List β} {c : Char} {cs : List Char}
    (hc : Solid c) (hne : c ≠ close) (hfirst : text x = c :: cs)
    (hreads : ∀ y ∈ x :: more, Reads item (text y) (value y)) :
    Reads (list item close) ([','].intercalate ((x :: more).map text) ++ [close])
      ((x :: more).mapM value) := by
  intro rest
  obtain ⟨tail, htail⟩ : ∃ tail, [','].intercalate ((x :: more).map text) = c :: tail := by
    cases more with
    | nil => exact ⟨cs, by simp [hfirst]⟩
    | cons y more => exact ⟨_, by rw [List.map_cons, List.map_cons, List.intercalate_cons_cons,
        hfirst, List.cons_append, List.cons_append]⟩
  have hlength := length_le_intercalate ((x :: more).map text)
  rw [List.append_assoc, List.singleton_append, list]
  have hskip : skipSpace ([','].intercalate ((x :: more).map text) ++ close :: rest) =
      c :: (tail ++ close :: rest) := by
    rw [htail, List.cons_append, skipSpace_cons hc]
  rw [hskip]
  simp only [if_neg hne]
  refine items_intercalate hclose hcomma rest (x :: more) _ (by simp) ?_ hreads
  rw [List.length_map] at hlength
  rw [List.length_append]
  omega

end

end Rubify.Json
