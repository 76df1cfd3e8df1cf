import Reckoner.Text.Basic

/-!
# Base 64

Bytes as printable characters: three bytes are written as four characters of six bits each, and
padding fills up the last four.
-/

namespace Reckoner

namespace Base64

/-- The character of six bits. -/
def digit (n : Nat) : UInt8 :=
  if n < 26 then (65 + n).toUInt8
  else if n < 52 then (71 + n).toUInt8
  else if n < 62 then (n - 4).toUInt8
  else if n = 62 then Text.byte '+' else Text.byte '/'

/-- The six bits of a character. -/
def value? (b : UInt8) : Option Nat :=
  if 65 ≤ b && b ≤ 90 then some (b.toNat - 65)
  else if 97 ≤ b && b ≤ 122 then some (b.toNat - 71)
  else if Text.isDigit b then some (b.toNat + 4)
  else if b = Text.byte '+' then some 62
  else if b = Text.byte '/' then some 63
  else none

/-- The byte that fills up the last group. -/
def padding : UInt8 := Text.byte '='

/-- The characters of a text. -/
def encode : Text → Text
  | [] => []
  | [a] => [digit (a.toNat / 4), digit (a.toNat % 4 * 16), padding, padding]
  | [a, b] =>
    [digit (a.toNat / 4), digit (a.toNat % 4 * 16 + b.toNat / 16), digit (b.toNat % 16 * 4),
      padding]
  | a :: b :: c :: rest =>
    digit (a.toNat / 4) :: digit (a.toNat % 4 * 16 + b.toNat / 16)
      :: digit (b.toNat % 16 * 4 + c.toNat / 64) :: digit (c.toNat % 64) :: encode rest

/-- The bytes of groups of four characters. Padding only stands at the end. -/
def decodeGroups : Text → Option Text
  | [] => some []
  | a :: b :: c :: d :: rest => do
    let x ← value? a
    let y ← value? b
    if c = padding then
      if d = padding && rest.isEmpty then return [(x * 4 + y / 16).toUInt8] else none
    else
      let z ← value? c
      if d = padding then
        if rest.isEmpty then return [(x * 4 + y / 16).toUInt8, (y % 16 * 16 + z / 4).toUInt8]
        else none
      else
        let w ← value? d
        return (x * 4 + y / 16).toUInt8 :: (y % 16 * 16 + z / 4).toUInt8
          :: (z % 4 * 64 + w).toUInt8 :: (← decodeGroups rest)
  | _ => none

/-- The bytes that characters stand for. Line ends are ignored. -/
def decode? (t : Text) : Option Text := decodeGroups (t.filter fun b => b ≠ 10 && b ≠ 13)

/-- The pieces of `width` bytes of a text, at most `fuel` of them. -/
def piecesOf (width : Nat) : (fuel : Nat) → Text → List Text
  | 0, _ => []
  | fuel + 1, t => if t.isEmpty then [] else t.take width :: piecesOf width fuel (t.drop width)

/-- The longest line of characters. -/
def lineWidth : Nat := 70

/-- The characters of a text, in lines if one line does not hold them. -/
def encodeLines (t : Text) : Text :=
  let all := encode t
  if all.length < lineWidth then all
  else (piecesOf lineWidth (all.length + 1) all).flatMap fun line => line ++ [10]

end Base64

end Reckoner
