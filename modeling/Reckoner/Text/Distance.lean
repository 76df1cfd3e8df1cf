import Reckoner.Text.Basic

/-!
# Edit distance

How many bytes have to be inserted, removed or replaced to turn one text into another.
-/

namespace Reckoner

namespace Text

/-- Continues a row of distances for one more byte `b` of the other text: `left` is the distance
found last, `diagonal` the one above it, and the list holds the further ones of the row above. -/
def distanceRow (b : UInt8) : (left diagonal : Nat) → Text → List Nat → List Nat
  | left, diagonal, a :: rest, up :: ups =>
    let d := if a = b then diagonal else min left (min up diagonal) + 1
    d :: distanceRow b d up rest ups
  | _, _, _, _ => []

/-- The distances of all prefixes of `s` from a text with one more byte. -/
def nextDistances (s : Text) (row : List Nat) (b : UInt8) : List Nat :=
  match row with
  | [] => []
  | first :: rest => (first + 1) :: distanceRow b (first + 1) first s rest

/-- The edit distance of two texts. -/
def distance (s t : Text) : Nat :=
  (t.foldl (nextDistances s) (List.range (s.length + 1))).getLast?.getD 0

end Text

end Reckoner
