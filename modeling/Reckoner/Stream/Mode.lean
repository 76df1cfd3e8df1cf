import Reckoner.Text.Case
import Reckoner.Text.Quoted
import Reckoner.Error

/-!
# Stream modes

How the records of a stream are encoded: as lines of text, as binary tokens behind a header, the
same compressed behind the header, or as binary tokens alone.
-/

namespace Reckoner

/-- The encoding of a stream. -/
inductive Mode where
  /-- Lines of escaped tokens. -/
  | text
  /-- Packed records behind a header. -/
  | binary
  /-- Packed records behind a header, deflated. -/
  | compressed
  /-- Packed records without a header. -/
  | raw
  /-- A number outside of the named modes. -/
  | other (code : Int)
  deriving DecidableEq, Repr

namespace Mode

/-- The named modes in the order of their numbers. -/
def named : List Mode := [text, binary, compressed, raw]

/-- The mode with a number. Numbers that name no mode are kept, so that errors can show them. -/
def ofCode (code : Int) : Mode :=
  if code < 0 then other code else (named[code.toNat]?).getD (other code)

/-- The number of a mode. -/
def code : Mode → Int
  | text => 0
  | binary => 1
  | compressed => 2
  | raw => 3
  | other code => code

/-- The name of a mode, and its number where it has none. -/
def name : Mode → Text
  | text => "text"
  | binary => "binary"
  | compressed => "compressed"
  | raw => "raw"
  | other code => "Mode(" ++ Text.ofInt code ++ ")"

/-- The mode with a name, in any case. -/
def ofName (t : Text) : Except Error Mode :=
  match named.find? fun m => Text.sameFolded t m.name with
  | some m => .ok m
  | none => .error (.other ("ie: unknown mode " ++ Text.quote t))

end Mode

/-- Whether a byte may stand in a text stream. -/
def printable (b : UInt8) : Bool :=
  b = 9 || b = 10 || b = 13 || (0x20 ≤ b && b ≠ 0x7f)

end Reckoner
