import Reckoner.Text.Basic

/-!
# Indented output

A printer collects text and puts two blanks for each level of indentation in front of every line.
The indentation is that in force when the first byte of a line is written.

The depth is counted in 64 bits. A depth that would not fit wraps around to a number below zero,
and so becomes none. What is written may be of any length, as memory has no limit here.
-/

namespace Reckoner

/-- Written text with the state of the indentation. -/
structure Printer where
  /-- All that has been written. -/
  written : Text := []
  /-- The number of levels that new lines are indented by. -/
  depth : Int64 := 0
  /-- Whether nothing of the current line has been written. -/
  lineStart : Bool := true

namespace Printer

/-- The blanks in front of a line. -/
def indentation (depth : Int64) : Text := List.replicate (2 * depth.toInt.toNat) 32

/-- The pieces of a text, each up to and with a line feed but maybe the last. -/
def pieces : Text → List Text
  | [] => []
  | b :: rest =>
    if b = 10 then [b] :: pieces rest
    else match pieces rest with
      | [] => [[b]]
      | piece :: more => (b :: piece) :: more

/-- Writes one piece of a line. -/
def writePiece (p : Printer) (piece : Text) : Printer :=
  let margin := if p.lineStart then indentation p.depth else []
  { p with
    written := p.written ++ margin ++ piece
    lineStart := piece.getLast? = some 10 }

/-- Writes a text. -/
def write (p : Printer) (t : Text) : Printer := (pieces t).foldl writePiece p

/-- Writes a text and ends the line. -/
def writeLine (p : Printer) (t : Text) : Printer := p.write (t ++ [10])

/-- Changes the indentation by some levels; it never goes below none. -/
def indent (p : Printer) (levels : Int) : Printer :=
  let depth := p.depth + Int64.ofInt levels
  { p with depth := if depth < 0 then 0 else depth }

/-- Takes back the indentation. What has been written stays. -/
def clear (p : Printer) : Printer := { p with depth := 0 }

end Printer

end Reckoner
