import Reckoner.Number.Rounding

/-!
# Double precision numbers

A `Binary64` is the 64-bit word of a double. Every finite double is a whole number of units of
`2 ^ -1074`, the smallest positive one, so each operation takes the two words apart into a sign
and a number of units, computes the exact result, and rounds it once to the nearest double, ties
to even. An operation with an operand that is no number yields that operand; an operation with
no meaningful result (such as the difference of two infinities) yields `invalid`.

Equality of the language is `eq`, by value: a NaN differs from itself and the two zeros are
equal. The equality `=` of the type compares words.
-/

namespace Reckoner

/-- A double, given by its 64-bit word. -/
structure Binary64 where
  /-- The sign, eleven bits of exponent and 52 of the fraction, from the top. -/
  bits : UInt64
  deriving DecidableEq, Repr, Inhabited

/-- What a word stands for. -/
inductive Binary64.Class where
  /-- No number. -/
  | nan
  /-- An infinity. -/
  | infinite (negative : Bool)
  /-- The number `units * 2 ^ -1074` with the given sign. -/
  | finite (negative : Bool) (units : Nat)
  deriving DecidableEq, Repr

namespace Binary64

/-- The sign bit. -/
def isNegative (x : Binary64) : Bool := Nat.pow 2 63 ≤ x.bits.toNat

/-- What the word stands for. -/
def classify (x : Binary64) : Class :=
  let frac := x.bits.toNat % Nat.pow 2 52
  let expo := x.bits.toNat / Nat.pow 2 52 % 2048
  if expo = 2047 then (if frac = 0 then .infinite x.isNegative else .nan)
  else if expo = 0 then .finite x.isNegative frac
  else .finite x.isNegative ((Nat.pow 2 52 + frac) * Nat.pow 2 (expo - 1))

/-- The word with the given sign and magnitude bits. -/
def ofSign (negative : Bool) (magnitude : Nat) : Binary64 :=
  ⟨((if negative then Nat.pow 2 63 else 0) + magnitude).toUInt64⟩

/-- The positive zero. -/
def zero : Binary64 := ⟨0⟩

/-- The number one. -/
def one : Binary64 := ⟨0x3ff0000000000000⟩

/-- The infinity of a sign. -/
def infinity (negative : Bool) : Binary64 := ofSign negative (2047 * Nat.pow 2 52)

/-- The value read from the word `NaN`. -/
def nan : Binary64 := ⟨0x7ff8000000000001⟩

/-- The value of an operation that has no meaningful result. -/
def invalid : Binary64 := ⟨0xfff8000000000000⟩

/-- The double of a representable number of units; anything too large is an infinity. -/
def pack (negative : Bool) (units : Nat) : Binary64 :=
  if units < Nat.pow 2 53 then ofSign negative units
  else
    let shift := bitLength units - 53
    if 2046 ≤ shift then infinity negative
    else ofSign negative ((shift + 1) * Nat.pow 2 52 + (units / Nat.pow 2 shift - Nat.pow 2 52))

/-- The double nearest to `num / den` units, ties to even. -/
def roundUnits (negative : Bool) (num den : Nat) : Binary64 :=
  let shift := bitLength (num / den) - 53
  pack negative (roundDiv num (den * Nat.pow 2 shift) * Nat.pow 2 shift)

/-- The number of units in one. -/
def unitsOfOne : Nat := Nat.pow 2 1074

/-- The double nearest to the quotient `num / den`. -/
def ofRatio (negative : Bool) (num den : Nat) : Binary64 :=
  roundUnits negative (num * unitsOfOne) den

/-- The double nearest to an integer. -/
def ofInt (n : Int) : Binary64 := ofRatio (n < 0) n.natAbs 1

/-- The double nearest to a dyadic number. -/
def ofDyadic (negative : Bool) (x : Dyadic) : Binary64 :=
  let (num, den) := x.fraction
  ofRatio negative num den

/-- Whether the double is no number. -/
def isNaN (x : Binary64) : Bool :=
  match x.classify with
  | .nan => true
  | _ => false

/-- Whether the double is one of the two infinities. -/
def isInfinite (x : Binary64) : Bool :=
  match x.classify with
  | .infinite _ => true
  | _ => false

/-- Whether the double is zero, of either sign. -/
def isZero (x : Binary64) : Bool :=
  match x.classify with
  | .finite _ 0 => true
  | _ => false

/-- The other sign. -/
def neg (x : Binary64) : Binary64 := ⟨x.bits ^^^ 0x8000000000000000⟩

/-- Without the sign. -/
def abs (x : Binary64) : Binary64 := ⟨x.bits &&& 0x7fffffffffffffff⟩

/-- A sign and a number of units as an integer. -/
def signed (negative : Bool) (units : Nat) : Int := if negative then -(units : Int) else units

/-- The sum of two finite numbers. An exact zero is negative only if both are. -/
def addFinite (s : Bool) (a : Nat) (t : Bool) (b : Nat) : Binary64 :=
  let sum := signed s a + signed t b
  if sum = 0 then ofSign (s && t) 0 else roundUnits (sum < 0) sum.natAbs 1

/-- The sum. A NaN is passed on, the left one first, and infinities of different signs have none. -/
def add (x y : Binary64) : Binary64 :=
  match x.classify, y.classify with
  | .nan, _ => x
  | _, .nan => y
  | .infinite s, .infinite t => if s = t then x else invalid
  | .infinite _, .finite _ _ => x
  | .finite _ _, .infinite _ => y
  | .finite s a, .finite t b => addFinite s a t b

/-- The difference. A NaN is passed on with its own sign, so that the right operand is turned around
only if there is none. -/
def sub (x y : Binary64) : Binary64 :=
  match x.classify, y.classify with
  | .nan, _ => x
  | _, .nan => y
  | _, _ => add x y.neg

/-- The product. A NaN is passed on, and zero has none with an infinity. -/
def mul (x y : Binary64) : Binary64 :=
  match x.classify, y.classify with
  | .nan, _ => x
  | _, .nan => y
  | .infinite s, .infinite t => infinity (s != t)
  | .infinite s, .finite t b => if b = 0 then invalid else infinity (s != t)
  | .finite s a, .infinite t => if a = 0 then invalid else infinity (s != t)
  | .finite s a, .finite t b => roundUnits (s != t) (a * b) unitsOfOne

/-- The quotient. A NaN is passed on; neither two zeros nor two infinities have one, and anything
else by zero is infinite. -/
def div (x y : Binary64) : Binary64 :=
  match x.classify, y.classify with
  | .nan, _ => x
  | _, .nan => y
  | .infinite _, .infinite _ => invalid
  | .infinite s, .finite t _ => infinity (s != t)
  | .finite s _, .infinite t => ofSign (s != t) 0
  | .finite s a, .finite t b =>
    if b = 0 then (if a = 0 then invalid else infinity (s != t))
    else roundUnits (s != t) (a * unitsOfOne) b

/-- The remainder of the division truncated toward zero, with the sign of `x`; exact. -/
def mod (x y : Binary64) : Binary64 :=
  match x.classify, y.classify with
  | .nan, _ => nan
  | _, .nan => nan
  | .infinite _, _ => nan
  | .finite _ _, .infinite _ => x
  | .finite s a, .finite _ b => if b = 0 then nan else pack s (a % b)

instance : Add Binary64 := ⟨add⟩
instance : Sub Binary64 := ⟨sub⟩
instance : Mul Binary64 := ⟨mul⟩
instance : Div Binary64 := ⟨div⟩
instance : Neg Binary64 := ⟨neg⟩

/-- Equality by value. -/
def eq (x y : Binary64) : Bool :=
  match x.classify, y.classify with
  | .infinite s, .infinite t => s = t
  | .finite s a, .finite t b => signed s a = signed t b
  | _, _ => false

/-- The order of values; a NaN is neither less nor greater than anything. -/
def lt (x y : Binary64) : Bool :=
  match x.classify, y.classify with
  | .infinite s, .infinite t => s && !t
  | .infinite s, .finite _ _ => s
  | .finite _ _, .infinite t => !t
  | .finite s a, .finite t b => signed s a < signed t b
  | _, _ => false

/-- The integer part of a number that lies in the range of 64-bit integers; everything else
gives the least such integer. -/
def truncate (x : Binary64) : Int64 :=
  match x.classify with
  | .finite s a =>
    let n := signed s (a / unitsOfOne)
    if -(Nat.pow 2 63) ≤ n && n < Nat.pow 2 63 then Int64.ofInt n else Int64.minValue
  | _ => Int64.minValue

end Binary64

end Reckoner
