import Reckoner.Number.Decimal
import Reckoner.Text.Quoted
import Reckoner.Time.Span
import Reckoner.Value.Basic

/-!
# Texts of values

The text of a value is what is printed and what string concatenation joins. Inside a sequence
strings are quoted. A context is shown by the names of its variables, which is why the text
depends on them.
-/

namespace Reckoner

/-- The names of the variables of every context. -/
abbrev Names := ContextId → List Text

/-- The text of a point: its coordinates in parentheses. -/
def Point.text (p : Point) : Text := "(" ++ p.x.text ++ ", " ++ p.y.text ++ ")"

/-- Cuts a list into rows of `cols` elements; `rows` bounds how many there are. -/
def Matrix.cut (cols : Nat) : (rows : Nat) → List Binary64 → List (List Binary64)
  | 0, _ => []
  | rows + 1, xs => if xs.isEmpty then [] else xs.take cols :: cut cols rows (xs.drop cols)

/-- The rows of a matrix. -/
def Matrix.rowList (m : Matrix) : List (List Binary64) := Matrix.cut m.cols m.rows m.data

/-- The text of a matrix: its rows, with semicolons between them. -/
def Matrix.text (m : Matrix) : Text :=
  "matrix(" ++ Text.join "; " (m.rowList.map fun row => Text.join ", " (row.map Binary64.text))
    ++ ")"

mutual

/-- The text of a value. -/
def Value.toText (names : Names) : Value → Text
  | .int n => Text.ofInt n.toInt
  | .real x => x.text
  | .bool b => if b then "true" else "false"
  | .text s => s
  | .dateTime t => t.text
  | .timeSpan d => Span.text d
  | .point p => p.text
  | .vector xs => "vector(" ++ Text.join ", " (xs.map Binary64.text) ++ ")"
  | .pointVector ps => "pointvector(" ++ Text.join ", " (ps.map Point.text) ++ ")"
  | .matrix m => m.text
  | .array _ items => "[" ++ Text.join ", " (Value.itemTexts names items) ++ "]"
  | .list items => "\x7b" ++ Text.join ", " (Value.itemTexts names items) ++ "\x7d"
  | .context c => "context(" ++ Text.join ", " (names c) ++ ")"
  | .handle _ => "handle"
  | .object tag _ => tag

/-- The texts of the items of a sequence, strings quoted. -/
def Value.itemTexts (names : Names) : List Value → List Text
  | [] => []
  | .text s :: rest => Text.quote s :: Value.itemTexts names rest
  | v :: rest => Value.toText names v :: Value.itemTexts names rest

end

end Reckoner
