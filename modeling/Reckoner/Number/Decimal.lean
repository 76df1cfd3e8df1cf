import Reckoner.Number.Binary64
import Reckoner.Text.Basic

/-!
# Doubles as decimal text

`shortest` finds the fewest decimal digits that read back as the same double, and of those the
nearest; `text` lays them out: positionally while the first digit stands between the fourth
place behind the point and the sixth before it, and with an exponent of at least two digits
otherwise.
-/

namespace Reckoner

namespace Binary64

/-- A decimal `0.d₁d₂… * 10 ^ point`, its digits as one number of `count` digits. -/
structure Digits where
  /-- The number that the digits make. -/
  digits : Nat
  /-- How many digits there are. -/
  count : Nat
  /-- The power of ten that `0.d₁d₂…` is multiplied by. -/
  point : Int
  deriving DecidableEq, Repr

/-- The power of ten as a fraction. -/
def tenTo (e : Int) : Nat × Nat :=
  if e < 0 then (1, Nat.pow 10 e.natAbs) else (Nat.pow 10 e.toNat, 1)

/-- The exponent `p` with `10 ^ (p - 1) ≤ num / den < 10 ^ p`, found from an estimate that is at
most a few off: the largest one near it for which the number reaches the power below. -/
def decimalPoint (num den : Nat) : Int :=
  let guess : Int := ((bitLength num : Int) - bitLength den) * 30103 / 100000
  let reaches (p : Int) : Bool :=
    let (a, b) := tenTo p
    a * den ≤ num * b
  let window : List Int := [guess + 3, guess + 2, guess + 1, guess, guess - 1, guess - 2]
  match window.find? (fun p => reaches (p - 1)) with
  | some p => p
  | none => guess - 3

/-- The bounds, in half units, between which every number reads back as the double of `units`
units, and whether the bounds themselves do. -/
def readingInterval (units : Nat) : Nat × Nat × Bool :=
  let shift := bitLength units - 53
  let step := Nat.pow 2 shift
  let low := if units = Nat.pow 2 (52 + shift) && 0 < shift then step / 2 else step
  (2 * units - low, 2 * units + step, units / step % 2 = 0)

/-- Whether `num / den` units read back as the double of `units` units. -/
def readsAs (units num den : Nat) : Bool :=
  let (low, high, closed) := readingInterval units
  if closed then low * den ≤ 2 * num && 2 * num ≤ high * den
  else low * den < 2 * num && 2 * num < high * den

/-- Tries to write `units` units with `count` digits: the nearer of the two neighbours on that grid,
provided that it reads back. The step of the grid is `10 ^ (point - count)`, and a unit is `2 ^
-1074`. -/
def digitsAt (units : Nat) (point : Int) (count : Nat) : Option Nat :=
  let (a, b) := tenTo (point - count)
  let num := units * b
  let den := a * unitsOfOne
  let down := num / den
  let nearer := roundDiv num den
  let other := if nearer = down then down + 1 else down
  if readsAs units (nearer * den) b then some nearer
  else if readsAs units (other * den) b then some other
  else none

/-- The first digits that read back, and how many they are, trying at most 17. -/
def fewestDigits (units : Nat) (point : Int) : Option (Nat × Nat) :=
  (List.range 17).findSome? fun k => (digitsAt units point (k + 1)).map fun d => (d, k + 1)

/-- The decimal with the digits that were found. Rounding up may have carried into one more digit;
any other last digit is not zero, as fewer digits were refused. -/
def Digits.ofFound (point : Int) : Option (Nat × Nat) → Digits
  | none => ⟨0, 1, 1⟩
  | some (d, count) =>
    if d = Nat.pow 10 count then ⟨1, 1, point + 1⟩
    else
      ⟨d, count, point⟩

/-- The shortest digits of a positive number of units. -/
def shortest (units : Nat) : Digits :=
  let point := decimalPoint units unitsOfOne
  Digits.ofFound point (fewestDigits units point)

/-- The digits of a positive decimal in the chosen layout. -/
def layout (d : Digits) : Text :=
  let ds := Text.ofNat d.digits
  let e := d.point - 1
  if e < -4 || 6 ≤ e then
    let mantissa := match ds with
      | first :: second :: rest => first :: Text.byte '.' :: second :: rest
      | _ => ds
    mantissa ++ "e" ++ (if e < 0 then "-" else "+") ++ Text.padLeft '0' 2 (Text.ofNat e.natAbs)
  else if d.point ≤ 0 then
    "0." ++ List.replicate d.point.natAbs (Text.byte '0') ++ ds
  else
    let whole := d.point.toNat
    if ds.length ≤ whole then ds ++ List.replicate (whole - ds.length) (Text.byte '0')
    else ds.take whole ++ "." ++ ds.drop whole

/-- The text of a double. -/
def text (x : Binary64) : Text :=
  match x.classify with
  | .nan => "NaN"
  | .infinite negative => if negative then "-Inf" else "+Inf"
  | .finite negative units =>
    (if negative then "-" else "")
      ++ (if units = 0 then [Text.byte '0'] else layout (shortest units))

end Binary64

end Reckoner
