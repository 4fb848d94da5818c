import Rubify.Convert
import Rubify.Phrase.Declaration
import Rubify.Proofs.Flow.Collect
import Rubify.Proofs.Output.Rows

/-!
# The levels of what a tree is converted to

A tree is converted to rows with levels first (`convertRows`), and the width of an indentation is looked
at only when these are written.

Headline:
* **`convert_levels`**: for every width, a tree is converted to the same rows at the same levels.
-/

namespace Rubify

/-- The rows that a tree is converted to. -/
def convertRows (o : Ruby.Options) (tree : Node) : Except ConvertError (List Row) := do
  let graph ← (Program.Graph.ofTree .ruby tree).mapError .build
  let written ← (Ruby.takeUnit o graph).mapError .render
  return Layout.rowsAll 0 [] written.1

theorem convert_eq_writeRows (s : Settings) (tree : Node) :
    convert s tree = writeRows s.indentWidth <$> convertRows s.options tree := by
  have hwrite (lines : List Layout) : (Layout.writeAll lines { indentWidth := s.indentWidth }).out =
      writeRows s.indentWidth (Layout.rowsAll 0 [] lines) :=
    congrArg Emitter.out
      (Layout.writeAll_showing lines { indentWidth := s.indentWidth } (List.forall_mem_nil _))
  unfold convert convertRows
  cases Program.Graph.ofTree .ruby tree with
  | error e => rfl
  | ok g =>
    cases hl : Ruby.takeUnit s.options g with
    | error e => simp [hl, Except.mapError, bind, Except.bind, Functor.map, Except.map]
    | ok written => simp [hl, hwrite, Except.mapError, bind, Except.bind, pure, Except.pure]

theorem convertRows_eq_ok {o : Ruby.Options} {tree : Node} {rows : List Row}
    (h : convertRows o tree = .ok rows) : ∃ lines, rows = Layout.rowsAll 0 [] lines := by
  obtain ⟨g, -, h⟩ := Flow.bind_eq_ok.mp h
  obtain ⟨written, -, h⟩ := Flow.bind_eq_ok.mp h
  exact ⟨written.1, (Except.ok.inj h).symm⟩

theorem proper_convertRows {o : Ruby.Options} {tree : Node} {rows : List Row}
    (h : convertRows o tree = .ok rows) : ∀ r ∈ rows, r.Proper := by
  obtain ⟨lines, rfl⟩ := convertRows_eq_ok h
  exact Layout.proper_rowsAll lines (List.forall_mem_nil _)

/-- **The width changes the blanks in front of rows only.** A tree that is converted has one list of
rows with levels that, for every width, is what it is converted to: the blanks of the level and the
text of the row, and nothing for a row that shows nothing. -/
theorem convert_levels {s : Settings} {tree : Node} {out : String} (h : convert s tree = .ok out) :
    ∃ rows : List Row, (∀ r ∈ rows, r.Proper) ∧ out = writeRows s.indentWidth rows ∧
      ∀ width, convert { s with indentWidth := width } tree = .ok (writeRows width rows) := by
  rw [convert_eq_writeRows] at h
  obtain ⟨rows, hrows, rfl⟩ := Flow.map_eq_ok.mp h
  refine ⟨rows, proper_convertRows hrows, rfl, fun width => ?_⟩
  rw [convert_eq_writeRows]
  exact congrArg (writeRows width <$> ·) hrows

/-- Two constructors that share an `initialize`; one has a loop and a comment of three lines, of which
one shows nothing. -/
def gauge : Node :=
  Phrase.compilationUnit none [] [Phrase.typeDeclaration [] (Phrase.classDeclaration "Gauge" [] none []
    [Phrase.field [] "int" [("top", some "9")], Phrase.constructor [] "Gauge" [] [],
      Phrase.constructor [] "Gauge" [("int", "n")]
        [Phrase.comment "/* down\n \t\n  to zero */", Phrase.whileStatement "n > 0"
          (Phrase.blockStatement [Phrase.expressionStatement "n = n - 1"])]])]

/-- What `gauge` is converted to, with one blank for each level. -/
def gaugeText : String :=
  "class Gauge\n def initialize(*args)\n  case args.size\n  when 0\n   @top = 9\n  when 1\n" ++
    "   n = args[0]\n   @top = 9\n   # /* down\n\n     to zero */\n   while n > 0\n    n = n - 1\n" ++
    "   end\n  else\n   raise ArgumentError, \"wrong number of arguments (given #\x7bargs.size\x7d)\"\n" ++
    "  end\n end\nend\n"

theorem convert_levels_gauge : ∃ rows : List Row, (∀ r ∈ rows, r.Proper) ∧
    gaugeText = writeRows 1 rows ∧
    ∀ width, convert { indentWidth := width } gauge = .ok (writeRows width rows) := by
  have htext : (convert { indentWidth := 1 } gauge).toOption = some gaugeText := by decide +kernel
  cases h : convert { indentWidth := 1 } gauge with
  | error e => rw [h] at htext; cases htext
  | ok out =>
    rw [h] at htext
    obtain rfl : out = gaugeText := Option.some.inj htext
    exact convert_levels h

end Rubify
