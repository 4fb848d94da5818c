import Rubify.Phrase.Declaration
import Rubify.Ruby.Stmt
import Rubify.Text.Word
import Mathlib.Data.List.Infix
import Mathlib.Data.List.TakeWhile

/-!
# Telling lines apart

A line of Ruby is told by its first word. `Line.read` looks that up among the keywords that open, divide,
close or leave a statement, and takes the text behind it; a line that begins with any other word is a
statement of its own. So it finds again what stands in a line that has been written, whatever its texts
are (`read_if` and the lemmas behind it), as long as a statement of its own does not begin with a
keyword (`read_other`).
-/

namespace Rubify

namespace Text

/-- Whether a character can stand in a word. -/
def inWord (c : Char) : Bool :=
  isAlphanumeric c || c = '_'

/-- The first word of a text, empty if it begins with anything else. -/
def firstWord (text : String) : String :=
  String.ofList (text.toList.takeWhile inWord)

theorem takeWhile_inWord {word rest : List Char} (hword : word.all inWord = true)
    (hrest : rest.head?.any inWord = false) : (word ++ rest).takeWhile inWord = word := by
  rw [List.takeWhile_append_of_pos (List.all_eq_true.mp hword)]
  cases rest with
  | nil => simp
  | cons c rest => simpa using hrest

theorem dropWhile_inWord {word rest : List Char} (hword : word.all inWord = true)
    (hrest : rest.head?.any inWord = false) : (word ++ rest).dropWhile inWord = rest := by
  rw [List.dropWhile_append_of_pos (List.all_eq_true.mp hword)]
  cases rest with
  | nil => rfl
  | cons c rest => simpa using hrest

theorem after?_append (start cs : List Char) : after? start (start ++ cs) = some cs := by
  rw [after?, if_pos (List.isPrefixOf_iff_prefix.mpr (List.prefix_append start cs)), List.drop_left]

end Text

theorem Phrase.before?_append (text ending : String) :
    Phrase.before? ending (text ++ ending) = some text := by
  rw [before?, String.toList_append, List.reverse_append, Text.after?_append, Option.map_some,
    List.reverse_reverse, String.ofList_toList]

namespace Ruby

open Rubify.Flow Text

/-- A line, with the text in it. -/
inductive Line
  | opensIf (condition : String)
  | opensLoop (condition : String)
  | opensCatch (label : String)
  | opensCase (value : String)
  | elsif (condition : String)
  | when (labels : String)
  | otherwise
  | closes
  /-- A statement of one line. -/
  | stmt (s : Stmt)

namespace Line

/-- The keyword stands alone. -/
def alone (line : Line) (rest : List Char) : Option Line :=
  if rest = [] then some line else none

/-- A blank and a text stand behind the keyword. -/
def spaced (line : String → Line) (rest : List Char) : Option Line :=
  (after? [' '] rest).map fun text => line (String.ofList text)

/-- The lines that keywords begin, by what stands behind the keyword. -/
def readers : List (String × (List Char → Option Line)) :=
  [("if", spaced opensIf),
   ("while", spaced opensLoop),
   ("case", spaced opensCase),
   ("catch", fun rest => (after? "(:break_".toList rest).bind fun text =>
      (Phrase.before? ") do" (String.ofList text)).map opensCatch),
   ("elsif", spaced elsif),
   ("else", alone otherwise),
   ("when", spaced when),
   ("end", alone closes),
   ("break", alone (stmt (.leave none))),
   ("throw", fun rest => (after? " :break_".toList rest).map fun text =>
      stmt (.leave (some (String.ofList text)))),
   ("return", fun rest => alone (stmt (.return none)) rest <|>
      spaced (fun value => stmt (.return (some value))) rest),
   ("raise", spaced fun value => stmt (.raise value))]

/-- The words that begin the lines of a statement with parts, or leave one. -/
def keywords : List String :=
  readers.map Prod.fst

/-- Reads a line. -/
def read (text : String) : Line :=
  ((readers.lookup (firstWord text)).bind fun reader =>
    reader (text.toList.dropWhile inWord)).getD (stmt (.other text))

/-! ## Lines that have been written -/

section

variable (word : String) {reader : List Char → Option Line} {line : Line}

/-- A line that begins with a keyword is read as the keyword says. -/
theorem read_keyword (hlookup : readers.lookup word = some reader)
    (hword : word.toList.all inWord = true) {text : String} {rest : List Char}
    (htext : text.toList = word.toList ++ rest) (hrest : rest.head?.any inWord = false)
    (hread : reader rest = some line) : read text = line := by
  rw [read, firstWord, htext, takeWhile_inWord hword hrest, dropWhile_inWord hword hrest,
    String.ofList_toList, hlookup, Option.bind_some, hread]
  rfl

theorem spaced_cons (make : String → Line) (text : String) :
    spaced make (' ' :: text.toList) = some (make text) := by
  have hafter := after?_append [' '] text.toList
  rw [List.singleton_append] at hafter
  rw [spaced, hafter, Option.map_some, String.ofList_toList]

/-- The text behind a keyword and a blank is found again. -/
theorem read_spaced {make : String → Line} (hlookup : readers.lookup word = some (spaced make))
    (hword : word.toList.all inWord = true) {start : String}
    (hstart : start.toList = word.toList ++ [' ']) (text : String) :
    read (start ++ text) = make text := by
  have htext : (start ++ text).toList = word.toList ++ ' ' :: text.toList := by simp [hstart]
  exact read_keyword word hlookup hword htext (by decide : inWord ' ' = false) (spaced_cons make text)

theorem read_alone (hlookup : readers.lookup word = some (alone line))
    (hword : word.toList.all inWord = true) : read word = line :=
  read_keyword word hlookup hword (List.append_nil _).symm rfl rfl

end

section

variable (text : String)

@[simp] theorem read_if : read ("if " ++ text) = opensIf text :=
  read_spaced "if" rfl (by decide) rfl text

@[simp] theorem read_while : read ("while " ++ text) = opensLoop text :=
  read_spaced "while" rfl (by decide) rfl text

@[simp] theorem read_case : read ("case " ++ text) = opensCase text :=
  read_spaced "case" rfl (by decide) rfl text

@[simp] theorem read_elsif : read ("elsif " ++ text) = elsif text :=
  read_spaced "elsif" rfl (by decide) rfl text

@[simp] theorem read_when : read ("when " ++ text) = when text :=
  read_spaced "when" rfl (by decide) rfl text

@[simp] theorem read_raise : read ("raise " ++ text) = stmt (.raise text) :=
  read_spaced "raise" rfl (by decide) rfl text

@[simp] theorem read_else : read "else" = otherwise :=
  read_alone "else" rfl (by decide)

@[simp] theorem read_end : read "end" = closes :=
  read_alone "end" rfl (by decide)

@[simp] theorem read_break : read "break" = stmt (.leave none) :=
  read_alone "break" rfl (by decide)

@[simp] theorem read_return : read "return" = stmt (.return none) :=
  read_keyword "return" rfl (by decide) rfl rfl rfl

@[simp] theorem read_return_value : read ("return " ++ text) = stmt (.return (some text)) := by
  have htext : ("return " ++ text).toList = "return".toList ++ ' ' :: text.toList := by simp
  refine read_keyword "return" rfl (by decide) htext (by decide : inWord ' ' = false) ?_
  rw [spaced_cons]
  rfl

@[simp] theorem read_throw : read ("throw " ++ breakTag text) = stmt (.leave (some text)) := by
  have htext : ("throw " ++ breakTag text).toList =
      "throw".toList ++ (" :break_".toList ++ text.toList) := by simp [breakTag]
  refine read_keyword "throw" rfl (by decide) htext (by decide : inWord ' ' = false) ?_
  rw [after?_append, Option.map_some, String.ofList_toList]

@[simp] theorem read_catch : read ("catch(" ++ breakTag text ++ ") do") = opensCatch text := by
  have htext : ("catch(" ++ breakTag text ++ ") do").toList =
      "catch".toList ++ ("(:break_".toList ++ (text ++ ") do").toList) := by simp [breakTag]
  refine read_keyword "catch" rfl (by decide) htext (by decide : inWord '(' = false) ?_
  rw [after?_append, Option.bind_some, String.ofList_toList, Phrase.before?_append]
  rfl

end

/-- A line that begins with no keyword is a statement of its own. -/
theorem read_other {text : String} (h : firstWord text ∉ keywords) :
    read text = stmt (.other text) := by
  have hlookup : readers.lookup (firstWord text) = none :=
    List.lookup_eq_none_iff.mpr fun _ hentry =>
      bne_iff_ne.mpr fun heq => h (heq ▸ List.mem_map_of_mem hentry)
  rw [read, hlookup]
  rfl

end Line

end Ruby

end Rubify
