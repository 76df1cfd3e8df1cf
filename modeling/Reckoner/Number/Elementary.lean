import Reckoner.Number.Binary64

/-!
# Elementary functions, correctly rounded

Exponentials, logarithms, square roots and the circle constant to any precision. A function is
first enclosed between two integers at some number of binary places; if both ends round to the
same number of the wanted precision, that number is the answer, and otherwise the number of
places is doubled. Exact results, which no enclosure would decide, are found beforehand.
-/

namespace Reckoner

namespace Elementary

/-- An interval of reals: all `x` with `lo ≤ x * 2 ^ places ≤ hi`. -/
structure Enclosure where
  /-- The lower bound, scaled. -/
  lo : Int
  /-- The upper bound, scaled. -/
  hi : Int
  /-- The number of binary places of the bounds. -/
  places : Nat

/-- Quotient rounded toward minus infinity, and toward plus infinity. -/
def floorDiv (a : Int) (b : Nat) : Int := a.fdiv b

/-- The quotient rounded up. -/
def ceilDiv (a : Int) (b : Nat) : Int := -((-a).fdiv b)

/-- Partial sums of `z + z ^ 3 / 3 + z ^ 5 / 5 + …` in fixed point, for `0 ≤ z ≤ 1 / 3`: each of
the `n` steps adds one term, rounded down. -/
def atanhSum (places zz : Nat) : (n k : Nat) → (power sum : Nat) → Nat
  | 0, _, _, sum => sum
  | n + 1, k, power, sum =>
    if power = 0 then sum
    else atanhSum places zz n (k + 2) (power * zz / Nat.pow 2 places) (sum + power / k)

/-- Encloses `2 * atanh (num / den)` for `0 ≤ num / den ≤ 1 / 3`. Each step loses less than three
units in the last place, and the tail after `places` steps less than one. -/
def twoAtanh (places num den : Nat) : Enclosure :=
  let z := num * Nat.pow 2 places / den
  let zz := z * z / Nat.pow 2 places
  let sum := atanhSum places zz (places + 2) 1 z 0
  ⟨2 * sum, 2 * sum + 8 * (places + 4), places⟩

/-- Encloses the natural logarithm of 2. -/
def lnTwo (places : Nat) : Enclosure := twoAtanh places 1 3

/-- Encloses the natural logarithm of `num / den`, both positive. The quotient is `2 ^ k * m` with
`m` between one half and two, and the logarithm of `m` is `2 * atanh ((m - 1) / (m + 1))`. -/
def ln (places num den : Nat) : Enclosure :=
  let k : Int := (bitLength num : Int) - bitLength den
  let (n, d) := if k < 0 then (num * Nat.pow 2 k.natAbs, den) else (num, den * Nat.pow 2 k.toNat)
  let part := if d ≤ n then twoAtanh places (n - d) (n + d)
    else
      let e := twoAtanh places (d - n) (n + d)
      ⟨-e.hi, -e.lo, places⟩
  let two := lnTwo places
  if 0 ≤ k then ⟨part.lo + k * two.lo, part.hi + k * two.hi, places⟩
  else ⟨part.lo + k * two.hi, part.hi + k * two.lo, places⟩

/-- Partial sums of the exponential series in fixed point for an argument in `[0, 1)`. -/
def expSum (places x : Nat) : (n k : Nat) → (term sum : Nat) → Nat
  | 0, _, _, sum => sum
  | n + 1, k, term, sum =>
    if term = 0 then sum
    else expSum places x n (k + 1) (term * x / (Nat.pow 2 places * k)) (sum + term)

/-- Bounds, in fixed point, of the exponential of `x / 2 ^ places` for `0 ≤ x < 2 ^ places`. -/
def expUnit (places x : Nat) : Nat × Nat :=
  let sum := expSum places x (places + 4) 1 (Nat.pow 2 places) 0
  (sum, sum + 4 * (places + 4))

/-- Encloses the exponential of every number of an enclosure, as bounds for the mantissa together
with a power of two. The argument is at most a few thousand. A multiple of the logarithm of two is
taken off first, which leaves a number between zero and one. -/
def exp (arg : Enclosure) : Enclosure × Int :=
  let places := arg.places
  let two := lnTwo places
  let k : Int := arg.lo.fdiv two.hi
  let rest (bound : Int) (upper : Bool) : Nat :=
    let used := if upper == decide (0 ≤ k) then two.lo else two.hi
    (bound - k * used).toNat
  let lo := (expUnit places (min (rest arg.lo false) (Nat.pow 2 places - 1))).1
  let hi := (expUnit places (min (rest arg.hi true) (Nat.pow 2 places - 1))).2
  (⟨lo, hi, places⟩, k)

/-- Sums of the series of the inverse tangent of `1 / q` in fixed point, terms with a plus sign
and terms with a minus sign apart. -/
def atanSums (q : Nat) : (n k : Nat) → (power : Nat) → (plus minus : Nat) → Nat × Nat
  | 0, _, _, plus, minus => (plus, minus)
  | n + 1, k, power, plus, minus =>
    if power = 0 then (plus, minus)
    else atanSums q n (k + 2) (power / (q * q)) (minus + power / k) plus

/-- Encloses the inverse tangent of `1 / q`. The two sums take turns, so the larger one holds the
leading terms. -/
def atanInverse (places q : Nat) : Enclosure :=
  let (a, b) := atanSums q (places + 2) 1 (Nat.pow 2 places / q) 0 0
  let s : Int := (max a b : Nat) - (min a b : Nat)
  ⟨s - 4 * (places + 4), s + 4 * (places + 4), places⟩

/-- Encloses the circle constant: four times (four times `atan 1/5` less `atan 1/239`). -/
def pi (places : Nat) : Enclosure :=
  let a := atanInverse places 5
  let b := atanInverse places 239
  ⟨16 * a.lo - 4 * b.hi, 16 * a.hi - 4 * b.lo, places⟩

/-- A number of a given precision with a sign. -/
structure Signed where
  /-- Whether the number is below zero. -/
  negative : Bool
  /-- The number without its sign. -/
  magnitude : Dyadic
  deriving DecidableEq

/-- Rounds `n / 2 ^ places` to `prec` binary digits. The result is in a canonical form, so that
equal numbers are equal. -/
def roundSigned (prec : Nat) (n : Int) (places : Nat) : Signed :=
  let d := Dyadic.round prec ⟨n.natAbs, -(places : Int)⟩
  let e := if d.mantissa = 0 then ⟨0, 0⟩
    else if bitLength d.mantissa < prec then
      ⟨d.mantissa * Nat.pow 2 (prec - bitLength d.mantissa),
        d.exponent - ((prec - bitLength d.mantissa : Nat) : Int)⟩
    else if prec < bitLength d.mantissa then
      ⟨d.mantissa / Nat.pow 2 (bitLength d.mantissa - prec),
        d.exponent + ((bitLength d.mantissa - prec : Nat) : Int)⟩
    else d
  ⟨n < 0, e⟩

/-- The number both ends of an enclosure round to, if they agree. -/
def decided? (prec : Nat) (e : Enclosure) : Option Signed :=
  let a := roundSigned prec e.lo e.places
  let b := roundSigned prec e.hi e.places
  if a = b && a.magnitude.mantissa ≠ 0 then some a else none

/-- Doubles the number of places until the enclosure decides, at most `fuel` times. -/
def refine (prec : Nat) (enclose : Nat → Enclosure) : (fuel places : Nat) → Signed
  | 0, places => roundSigned prec (enclose places).lo places
  | fuel + 1, places =>
    match decided? prec (enclose places) with
    | some x => x
    | none => refine prec enclose fuel (2 * places)

/-- How often the number of places is doubled before giving up; no result needs that many. -/
def attempts : Nat := 20

/-- The natural logarithm of a positive number, rounded to `prec` binary digits. -/
def lnRounded (prec : Nat) (x : Dyadic) : Signed :=
  let (num, den) := x.fraction
  if num = den then ⟨false, ⟨0, 0⟩⟩
  else refine prec (fun places => ln places num den) attempts (prec + 64)

/-- Like `refine`, for the exponential of an enclosed number. The power of two that comes with it
does not change the digits, but it belongs to one number of places. -/
def refineExp (prec : Nat) (arg : Nat → Enclosure) : (fuel places : Nat) → Dyadic
  | 0, places =>
    let (e, k) := exp (arg places)
    let m := (roundSigned prec e.lo places).magnitude
    ⟨m.mantissa, m.exponent + k⟩
  | fuel + 1, places =>
    let (e, k) := exp (arg places)
    match decided? prec e with
    | some m => ⟨m.magnitude.mantissa, m.magnitude.exponent + k⟩
    | none => refineExp prec arg fuel (2 * places)

/-- The closest enclosure of a fraction with a sign. -/
def encloseFraction (negative : Bool) (num den places : Nat) : Enclosure :=
  let n : Int := num * Nat.pow 2 places
  let n := if negative then -n else n
  ⟨floorDiv n den, ceilDiv n den, places⟩

/-- The exponential of a number of moderate size, rounded to `prec` binary digits. -/
def expRounded (prec : Nat) (negative : Bool) (x : Dyadic) : Dyadic :=
  let (num, den) := x.fraction
  if num = 0 then ⟨1, 0⟩
  else refineExp prec (encloseFraction negative num den) attempts (prec + 64)

/-- The circle constant rounded to `prec` binary digits. -/
def piRounded (prec : Nat) : Dyadic :=
  (refine prec pi attempts (prec + 64)).magnitude

/-- The largest number whose square is at most `n`, by Newton's iteration from above. -/
def isqrtFrom (n : Nat) : (fuel guess : Nat) → Nat
  | 0, guess => guess
  | fuel + 1, guess =>
    let next := (guess + n / guess) / 2
    if next < guess then isqrtFrom n fuel next else guess

/-- The square root of a natural number, rounded down, by steps from a power of two that is above
it. -/
def isqrt (n : Nat) : Nat :=
  if n = 0 then 0 else isqrtFrom n (2 * bitLength n + 4) (Nat.pow 2 ((bitLength n + 1) / 2))

/-- The square root of a number, rounded to `prec` binary digits, ties to even. The number is first
scaled by an even power of two, so that the integer root has two digits more than needed, and one
more digit keeps an inexact root off the ties. -/
def sqrtRounded (prec : Nat) (x : Dyadic) : Dyadic :=
  if x.mantissa = 0 then ⟨0, 0⟩
  else
    let want := 2 * (prec + 2)
    let lift := want - bitLength x.mantissa
    let odd : Bool := (x.exponent - lift) % 2 != 0
    let lift := if odd then lift + 1 else lift
    let n := x.mantissa * Nat.pow 2 lift
    let half := (x.exponent - lift) / 2
    let root := isqrt n
    let sticky := if root * root = n then 2 * root else 2 * root + 1
    Dyadic.round prec ⟨sticky, half - 1⟩

end Elementary

end Reckoner
