import Reckoner.Number.Elementary

/-!
# Functions of doubles

Powers are the nearest double to the exact power. The functions of adjustable precision take
their argument rounded to `prec` binary digits, round the exact result to `prec` binary digits,
and then to the nearest double. Precision zero stands for 53 digits.
-/

namespace Reckoner

namespace Binary64

open Elementary

/-- Halves `n` while it is even, at most `fuel` times; `shift` counts how often. -/
def halve : (fuel n shift : Nat) → Nat × Nat
  | 0, n, shift => (n, shift)
  | fuel + 1, n, shift => if n % 2 = 0 then halve fuel (n / 2) (shift + 1) else (n, shift)

/-- An odd number times a power of two; zero for zero. -/
def oddPart (n : Nat) : Nat × Nat := if n = 0 then (0, 0) else halve (bitLength n) n 0

/-- The `2 ^ depth`-th root of `mantissa * 2 ^ exponent` with an odd mantissa, if it is such a
number again. -/
def exactRoot? : (depth : Nat) → (mantissa : Nat) → (exponent : Int) → Option (Nat × Int)
  | 0, m, e => some (m, e)
  | depth + 1, m, e =>
    let r := isqrt m
    if r * r = m && e % 2 = 0 then exactRoot? depth r (e / 2) else none

/-- A power of two or its reciprocal times an exact quotient. -/
def ofScaled (negative : Bool) (num den : Nat) (e : Int) : Binary64 :=
  if 6000 < e then infinity negative
  else if e < -6000 then ofSign negative 0
  else if e < 0 then ofRatio negative num (den * Nat.pow 2 e.natAbs)
  else ofRatio negative (num * Nat.pow 2 e.toNat) den

/-- The nearest double to `exp (sign * n / d * ln (a / b))`, from enclosures of growing size. -/
def powerRefined (negative : Bool) (a b : Nat) (downward : Bool) (n d : Nat) :
    (fuel places : Nat) → Binary64
  | 0, _ => ofSign negative 0
  | fuel + 1, places =>
    let l := Elementary.ln places a b
    let lo := l.lo * n
    let hi := l.hi * n
    let arg : Enclosure :=
      if downward then ⟨floorDiv (-hi) d, ceilDiv (-lo) d, places⟩
      else ⟨floorDiv lo d, ceilDiv hi d, places⟩
    if 1000 * Nat.pow 2 places < arg.lo then infinity negative
    else if arg.hi < -(1000 * Nat.pow 2 places) then ofSign negative 0
    else if Nat.pow 2 places < arg.hi - arg.lo then
      powerRefined negative a b downward n d fuel (2 * places)
    else
      let (e, k) := Elementary.exp arg
      let low := ofScaled negative e.lo.toNat (Nat.pow 2 places) k
      let high := ofScaled negative e.hi.toNat (Nat.pow 2 places) k
      if low = high then low else powerRefined negative a b downward n d fuel (2 * places)

/-- The power of two finite numbers other than zero, given by their units; `downward` is the sign
of the exponent. -/
def powFinite (negative : Bool) (a : Nat) (downward : Bool) (b : Nat) : Binary64 :=
  let (m, s) := oddPart a
  let (n, t) := oddPart b
  let e : Int := (s : Int) - 1074
  let f : Int := (t : Int) - 1074
  let exact : Option Binary64 := do
    let (m, e) ← exactRoot? (if f < 0 then f.natAbs else 0) m e
    if m = 1 then
      let p := e * n
      let p := if downward then -p else p
      if 6000 < f && p ≠ 0 then
        some (if 0 < p then infinity negative else ofSign negative 0)
      else some (ofScaled negative 1 1 (if f < 0 then p else p * Nat.pow 2 f.toNat))
    else if 64 < f then none
    else
      let power := if f < 0 then n else n * Nat.pow 2 f.toNat
      if power * bitLength m ≤ 8192 then
        let q := e * power
        some (if downward then ofScaled negative 1 (Nat.pow m power) (-q)
          else ofScaled negative (Nat.pow m power) 1 q)
      else none
  match exact with
  | some x => x
  | none =>
    let (num, den) := Dyadic.fraction ⟨m, e⟩
    let (p, q) := Dyadic.fraction ⟨n, f⟩
    powerRefined negative num den downward p q 24 160

/-- Whether a number of units is a whole number, and then whether it is odd. -/
def isWhole (units : Nat) : Bool := units % unitsOfOne = 0

/-- Whether a number of units is an odd integer. -/
def isOdd (units : Nat) : Bool := isWhole units && units / unitsOfOne % 2 = 1

/-- The power `x ^ y`. A zeroth power is one, whatever the base, and so is every power of one. -/
def pow (x y : Binary64) : Binary64 :=
  if y.isZero || x = one then one
  else if y = one then x
  else match x.classify, y.classify with
    | .nan, _ => nan
    | _, .nan => nan
    | .finite s 0, .infinite downward =>
      let _ := s
      if downward then infinity false else zero
    | .finite s 0, .finite downward b =>
      let negative := s && isOdd b
      if downward then infinity negative else ofSign negative 0
    | .finite _ a, .infinite downward =>
      if a = unitsOfOne then one
      else if (a < unitsOfOne) = downward then infinity false else zero
    | .infinite _, .infinite downward => if downward then zero else infinity false
    | .infinite s, .finite downward b =>
      let negative := s && isOdd b
      if downward then ofSign negative 0 else infinity negative
    | .finite s a, .finite downward b =>
      if s && !isWhole b then nan
      else powFinite (s && isOdd b) a downward b

/-! ### Functions of adjustable precision -/

/-- The precision meant by `prec`. -/
def effective (prec : Nat) : Nat := if prec = 0 then 53 else prec

/-- The magnitude of a finite number, rounded to `prec` binary digits. -/
def magnitude (prec : Nat) (x : Binary64) : Dyadic :=
  match x.classify with
  | .finite _ units => Dyadic.round (effective prec) ⟨units, -1074⟩
  | _ => ⟨0, 0⟩

/-- The exponential function on finite numbers. -/
def expAt (prec : Nat) (x : Binary64) : Binary64 :=
  let arg := magnitude prec x
  let (num, den) := arg.fraction
  if 1000 * den < num then (if x.isNegative then zero else infinity false)
  else ofDyadic false (expRounded (effective prec) x.isNegative arg)

/-- A rounded logarithm of a positive number. -/
def lnSigned (prec : Nat) (x : Binary64) : Signed :=
  lnRounded (effective prec) (magnitude prec x)

/-- The natural logarithm, for positive finite numbers. -/
def lnAt? (prec : Nat) (x : Binary64) : Option Binary64 :=
  if x.isNegative || x.isZero then none
  else
    let r := lnSigned prec x
    some (ofDyadic r.negative r.magnitude)

/-- The quotient of the rounded logarithms of two positive finite numbers; none if both are
zero. -/
def logAt? (prec : Nat) (x base : Binary64) : Option Binary64 :=
  let a := lnSigned prec x
  let b := lnSigned prec base
  if b.magnitude.mantissa = 0 then
    if a.magnitude.mantissa = 0 then none else some (infinity a.negative)
  else if a.magnitude.mantissa = 0 then some (ofSign b.negative 0)
  else
    let (p, q) := a.magnitude.fraction
    let (r, s) := b.magnitude.fraction
    some (ofDyadic (a.negative != b.negative) (Dyadic.ofRatio (effective prec) (p * s) (q * r)))

/-- The square root, for finite numbers that are not negative; that of a zero is the zero. -/
def sqrtAt? (prec : Nat) (x : Binary64) : Option Binary64 :=
  if x.isZero then some x
  else if x.isNegative then none
  else some (ofDyadic false (sqrtRounded (effective prec) (magnitude prec x)))

/-- The circle constant; without any precision it is zero. -/
def piAt (prec : Nat) : Binary64 :=
  if prec = 0 then zero else ofDyadic false (piRounded prec)

end Binary64

end Reckoner
