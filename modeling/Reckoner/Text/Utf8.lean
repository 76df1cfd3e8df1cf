import Reckoner.Text.Basic

/-!
# Reading a text as UTF-8

`runes` splits any text into characters and stray bytes, without ever failing: a byte that does
not start a well-formed character stands alone.
-/

namespace Reckoner

/-- One unit of a text: an encoded character, or a byte outside of any. -/
inductive Rune where
  /-- A well-formed character, given by its code point. -/
  | char (code : Nat)
  /-- A byte that starts no well-formed character. -/
  | stray (b : UInt8)
  deriving DecidableEq, Repr

namespace Text

/-- A byte that continues a character. -/
def isTail (b : UInt8) : Bool := 0x80 ≤ b && b ≤ 0xbf

/-- The bits a continuing byte contributes. -/
def tailBits (b : UInt8) : Nat := b.toNat % 64

/-- The range of the second byte that the first one leaves: it excludes overlong forms,
surrogates and everything above the last code point. -/
def secondOk (b c : UInt8) : Bool :=
  if b = 0xe0 then 0xa0 ≤ c && c ≤ 0xbf
  else if b = 0xed then 0x80 ≤ c && c ≤ 0x9f
  else if b = 0xf0 then 0x90 ≤ c && c ≤ 0xbf
  else if b = 0xf4 then 0x80 ≤ c && c ≤ 0x8f
  else isTail c

/-- The unit that starts with `b`, and how many of the following bytes belong to it. -/
def runeAt (b : UInt8) (rest : Text) : Rune × Nat :=
  if b < 0x80 then (.char b.toNat, 0)
  else if 0xc2 ≤ b && b ≤ 0xdf then
    match rest with
    | c :: _ => if isTail c then (.char ((b.toNat - 0xc0) * 64 + tailBits c), 1) else (.stray b, 0)
    | [] => (.stray b, 0)
  else if 0xe0 ≤ b && b ≤ 0xef then
    match rest with
    | c :: d :: _ =>
      if secondOk b c && isTail d then
        (.char ((b.toNat - 0xe0) * 4096 + tailBits c * 64 + tailBits d), 2)
      else (.stray b, 0)
    | _ => (.stray b, 0)
  else if 0xf0 ≤ b && b ≤ 0xf4 then
    match rest with
    | c :: d :: e :: _ =>
      if secondOk b c && isTail d && isTail e then
        (.char ((b.toNat - 0xf0) * 262144 + tailBits c * 4096 + tailBits d * 64 + tailBits e), 3)
      else (.stray b, 0)
    | _ => (.stray b, 0)
  else (.stray b, 0)

/-- The units of a text, after skipping `skip` bytes. -/
def runesFrom : (skip : Nat) → Text → List Rune
  | _, [] => []
  | k + 1, _ :: rest => runesFrom k rest
  | 0, b :: rest => let (r, tail) := runeAt b rest; r :: runesFrom tail rest

/-- The units of a text. -/
def runes (t : Text) : List Rune := runesFrom 0 t

/-- The UTF-8 bytes of a code point. -/
def encode (code : Nat) : Text :=
  if code < 0x80 then [code.toUInt8]
  else if code < 0x800 then [(0xc0 + code / 64).toUInt8, (0x80 + code % 64).toUInt8]
  else if code < 0x10000 then
    [(0xe0 + code / 4096).toUInt8, (0x80 + code / 64 % 64).toUInt8, (0x80 + code % 64).toUInt8]
  else
    [(0xf0 + code / 262144).toUInt8, (0x80 + code / 4096 % 64).toUInt8,
      (0x80 + code / 64 % 64).toUInt8, (0x80 + code % 64).toUInt8]

end Text

end Reckoner
