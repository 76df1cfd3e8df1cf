import Reckoner.Error

/-!
# Numbers of variable length

Unsigned numbers are written seven bits to a byte, the low ones first, with the high bit set on
all bytes but the last. Signed numbers are folded to unsigned ones so that small magnitudes stay
short: 0, -1, 1, -2 become 0, 1, 2, 3.
-/

namespace Reckoner

namespace Varint

/-- The bytes of a number below `128 ^ (more + 1)`. -/
def encodeFrom : (more : Nat) → Nat → Text
  | 0, n => [n.toUInt8]
  | more + 1, n =>
    if n < 128 then [n.toUInt8] else (n % 128 + 128).toUInt8 :: encodeFrom more (n / 128)

/-- The bytes of a number below `2 ^ 64`. -/
def encode (n : Nat) : Text := encodeFrom 9 n

/-- Folds a signed number of 64 bits. -/
def fold (n : Int64) : Nat :=
  if n < 0 then 2 * n.toInt.natAbs - 1 else 2 * n.toInt.natAbs

/-- Undoes `fold`. -/
def unfold (n : Nat) : Int64 :=
  if n % 2 = 0 then Int64.ofInt (n / 2 : Nat) else Int64.ofInt (-((n / 2 : Nat) : Int) - 1)

/-- What reading a number comes to: the number and the rest, the end of the bytes, or a number
of more than 64 bits and the rest. -/
inductive Outcome where
  /-- A number, and what follows it. -/
  | value (n : Nat) (rest : Text)
  /-- The bytes end inside of the number. -/
  | ended
  /-- The number has more than 64 bits. -/
  | overflow (rest : Text)
  deriving DecidableEq, Repr

/-- Reads the bytes from number `index` on of at most ten. -/
def decodeFrom : (left index soFar : Nat) → Text → Outcome
  | 0, _, _, t => .overflow t
  | _ + 1, _, _, [] => .ended
  | left + 1, index, soFar, b :: rest =>
    if b < 128 then
      if index = 9 && 1 < b then .overflow rest
      else .value (soFar + b.toNat * Nat.pow 128 index) rest
    else decodeFrom left (index + 1) (soFar + (b.toNat - 128) * Nat.pow 128 index) rest

/-- Reads a number. -/
def decode (t : Text) : Outcome := decodeFrom 10 0 0 t

end Varint

end Reckoner
