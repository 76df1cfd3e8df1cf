/-!
# Rounding

Numbers are rounded exactly once, from an exact quotient of natural numbers to the nearest
integer, a tie going to the even neighbour. Everything the library rounds (doubles, numbers of a
given precision) is rounded through `roundDiv`.
-/

namespace Reckoner

/-- The quotient `num / den` rounded to the nearest integer, ties to even. -/
def roundDiv (num den : Nat) : Nat :=
  let q := num / den
  let r := num % den
  if 2 * r < den then q
  else if den < 2 * r then q + 1
  else if q % 2 = 0 then q else q + 1

/-- The number of binary digits of `n`; zero has none. -/
def bitLength (n : Nat) : Nat := if n = 0 then 0 else n.log2 + 1

/-- A positive dyadic number `mantissa * 2 ^ exponent`. -/
structure Dyadic where
  mantissa : Nat
  exponent : Int
  deriving DecidableEq, Repr

namespace Dyadic

/-- The quotient `num / den` rounded to `prec` significant binary digits, ties to even. The lengths
of both numbers give the quotient up to a factor of two, so one of two exponents leaves `prec`
digits. -/
def ofRatio (prec num den : Nat) : Dyadic :=
  if num = 0 then ⟨0, 0⟩
  else
    let top : Int := (bitLength num : Int) - bitLength den
    let scaled (e : Int) : Nat × Nat :=
      if e < 0 then (num * Nat.pow 2 e.natAbs, den) else (num, den * Nat.pow 2 e.toNat)
    let e := top - prec + 1
    let (n, d) := scaled e
    if Nat.pow 2 (prec - 1) ≤ n / d then ⟨roundDiv n d, e⟩
    else
      let (n, d) := scaled (e - 1)
      ⟨roundDiv n d, e - 1⟩

/-- The number rounded to `prec` significant binary digits, ties to even. -/
def round (prec : Nat) (x : Dyadic) : Dyadic :=
  let extra := bitLength x.mantissa - prec
  if extra = 0 then x
  else ⟨roundDiv x.mantissa (Nat.pow 2 extra), x.exponent + extra⟩

/-- The exact value of the number as a fraction. -/
def fraction (x : Dyadic) : Nat × Nat :=
  if x.exponent < 0 then (x.mantissa, Nat.pow 2 x.exponent.natAbs)
  else (x.mantissa * Nat.pow 2 x.exponent.toNat, 1)

end Dyadic

end Reckoner
