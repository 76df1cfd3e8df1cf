/-!
# Texts

A text is a sequence of bytes. Names, string values and whole streams are texts; most of them
are UTF-8, but nothing here requires it, so every byte sequence a stream can hold is a text.

This module has the few operations the rest of the library is written with: decimal and
hexadecimal numerals, joining, splitting and padding.
-/

namespace Reckoner

/-- A sequence of bytes. -/
abbrev Text := List UInt8

namespace Text

/-- The UTF-8 bytes of a string. -/
def ofString (s : String) : Text := s.toUTF8.data.toList

instance : Coe String Text := ⟨ofString⟩

/-- The text of one ASCII character. -/
def byte (c : Char) : UInt8 := c.toUInt8

/-- A natural number in decimal. -/
def ofNat (n : Nat) : Text := (Nat.toDigits 10 n).map byte

/-- An integer in decimal, a minus sign in front of a negative one. -/
def ofInt (n : Int) : Text :=
  if n < 0 then byte '-' :: ofNat n.natAbs else ofNat n.natAbs

/-- `t` with copies of `c` in front, up to `width` bytes. -/
def padLeft (c : Char) (width : Nat) (t : Text) : Text :=
  List.replicate (width - t.length) (byte c) ++ t

/-- `t` with blanks behind, up to `width` bytes. -/
def padRight (width : Nat) (t : Text) : Text :=
  t ++ List.replicate (width - t.length) (byte ' ')

/-- A hexadecimal digit in lower case. -/
def hexDigit (n : Nat) : UInt8 :=
  if n < 10 then (48 + n).toUInt8 else (87 + n).toUInt8

/-- The low `width` hexadecimal digits of `n`. -/
def ofHex : (width : Nat) → (n : Nat) → Text
  | 0, _ => []
  | w + 1, n => ofHex w (n / 16) ++ [hexDigit (n % 16)]

/-- The texts one after another with `sep` between neighbours. -/
def join (sep : Text) : List Text → Text
  | [] => []
  | [t] => t
  | t :: u :: rest => t ++ sep ++ join sep (u :: rest)

/-- The pieces between the occurrences of the byte `c`; never empty. -/
def splitAtByte (c : UInt8) : Text → List Text
  | [] => [[]]
  | b :: rest =>
    if b = c then [] :: splitAtByte c rest
    else match splitAtByte c rest with
      | [] => [[b]]
      | piece :: pieces => (b :: piece) :: pieces

/-- `t` repeated `n` times. -/
def times (t : Text) : Nat → Text
  | 0 => []
  | n + 1 => t ++ times t n

/-- At most the first 80 bytes, followed by three dots if there were more. -/
def clip (t : Text) : Text :=
  if t.length ≤ 80 then t else t.take 80 ++ "..."

/-- Whether the byte is a decimal digit. -/
def isDigit (b : UInt8) : Bool := 48 ≤ b && b ≤ 57

/-- The value of a hexadecimal digit of either case. -/
def hexValue? (b : UInt8) : Option Nat :=
  if 48 ≤ b && b ≤ 57 then some (b.toNat - 48)
  else if 97 ≤ b && b ≤ 102 then some (b.toNat - 87)
  else if 65 ≤ b && b ≤ 70 then some (b.toNat - 55)
  else none

/-- The lower-case form of an ASCII letter; any other byte is kept. -/
def lowerByte (b : UInt8) : UInt8 := if 65 ≤ b && b ≤ 90 then b + 32 else b

/-- Reads a text of decimal digits, most significant first. -/
def digitsValue (ds : Text) : Nat := ds.foldl (fun n d => 10 * n + (d.toNat - 48)) 0

end Text

end Reckoner
