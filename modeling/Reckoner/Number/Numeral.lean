import Reckoner.Number.Binary64
import Reckoner.Text.Quoted

/-!
# Reading numbers

Readers of integers, doubles and truth values as they are written in text streams. A numeral is
refused because it is malformed or because its value is out of range; the scan goes from left to
right and stops at the first of the two it meets.
-/

namespace Reckoner

/-- Why a numeral is refused. -/
inductive NumeralFault where
  /-- It is no numeral. -/
  | malformed
  /-- Its value does not fit. -/
  | outOfRange
  deriving DecidableEq, Repr

/-- The message of the named reader for a refused text. -/
def NumeralFault.message (reader t : Text) (fault : NumeralFault) : Text :=
  let reason : Text := match fault with
    | malformed => "invalid syntax"
    | outOfRange => "value out of range"
  reader ++ ": parsing " ++ Text.quote t ++ ": " ++ reason

namespace Numeral

open Text (isDigit lowerByte byte)

/-- Continues an unsigned decimal number below `2 ^ bits`. -/
def scanUnsigned (bits : Nat) : (soFar : Nat) → Text → Except NumeralFault Nat
  | n, [] => .ok n
  | n, b :: rest =>
    if isDigit b then
      let n := 10 * n + (b.toNat - 48)
      if n < Nat.pow 2 bits then scanUnsigned bits n rest else .error .outOfRange
    else .error .malformed

/-- Reads an unsigned decimal number below `2 ^ bits`, without a sign. -/
def unsigned? (bits : Nat) (t : Text) : Except NumeralFault Nat :=
  if t.isEmpty then .error .malformed else scanUnsigned bits 0 t

/-- Takes an optional sign off: whether the number is negative, and the rest. -/
def splitSign : Text → Bool × Text
  | 45 :: rest => (true, rest)
  | 43 :: rest => (false, rest)
  | t => (false, t)

/-- Reads a decimal integer of 64 bits with an optional sign. -/
def int64? (t : Text) : Except NumeralFault Int64 :=
  let (negative, digits) := splitSign t
  match unsigned? 64 digits with
  | .error e => .error e
  | .ok n =>
    let v : Int := if negative then -(n : Int) else n
    if -(Nat.pow 2 63) ≤ v && v < Nat.pow 2 63 then .ok (Int64.ofInt v) else .error .outOfRange

/-- Reads hexadecimal digits; any other byte makes the text malformed. -/
def hex? : (soFar : Nat) → Text → Except NumeralFault Nat
  | n, [] => .ok n
  | n, b :: rest =>
    match Text.hexValue? b with
    | some d => hex? (16 * n + d) rest
    | none => .error .malformed

/-- Reads a truth value: `1`, `t`, `true`, their opposites and their capital forms. -/
def bool? (t : Text) : Except NumeralFault Bool :=
  if ["1", "t", "T", "TRUE", "true", "True"].any (fun w => Text.ofString w == t) then .ok true
  else if ["0", "f", "F", "FALSE", "false", "False"].any (fun w => Text.ofString w == t) then
    .ok false
  else .error .malformed

/-! ### Doubles -/

/-- What a position in a numeral follows: nothing yet, a digit or a base mark, an underscore, or
something else. -/
inductive Seen where
  /-- Nothing yet. -/
  | start
  /-- A digit or the mark of a base. -/
  | digit
  /-- An underscore, which wants a digit behind it. -/
  | underscore
  /-- Something that no underscore may stand beside. -/
  | other
  deriving DecidableEq

/-- Whether every underscore stands between two digits; a base mark counts as a digit. -/
def underscoresOk (hex : Bool) : Seen → Text → Bool
  | seen, [] => seen != .underscore
  | seen, b :: rest =>
    if isDigit b || (hex && (Text.hexValue? b).isSome) then underscoresOk hex .digit rest
    else if b = byte '_' then seen == .digit && underscoresOk hex .underscore rest
    else seen != .underscore && underscoresOk hex .other rest

/-- The digits of a mantissa: their value, how many stand behind the point, whether there was a
point and whether there was a digit, and the rest of the text. -/
structure Mantissa where
  /-- The digits so far as one number. -/
  value : Nat := 0
  /-- How many of the digits stand behind the point. -/
  behind : Nat := 0
  /-- Whether there was a point. -/
  sawPoint : Bool := false
  /-- Whether there was a digit. -/
  sawDigit : Bool := false
  /-- What follows the mantissa. -/
  rest : Text := []

/-- Scans the digits of a mantissa; underscores are skipped here and judged later. -/
def scanMantissa (hex : Bool) : Mantissa → Text → Mantissa
  | m, [] => { m with rest := [] }
  | m, b :: rest =>
    if b = byte '_' then scanMantissa hex m rest
    else if b = byte '.' then
      if m.sawPoint then { m with rest := b :: rest }
      else scanMantissa hex { m with sawPoint := true } rest
    else
      let base := if hex then 16 else 10
      match Text.hexValue? b with
      | some d =>
        if d < base then
          let behind := if m.sawPoint then m.behind + 1 else m.behind
          scanMantissa hex
            { m with value := base * m.value + d, behind, sawDigit := true } rest
        else { m with rest := b :: rest }
      | none => { m with rest := b :: rest }

/-- Scans the digits of an exponent; from ten thousand on further digits are dropped, since the
value is out of reach anyway. -/
def scanExponent : Nat → Text → Nat × Text
  | e, [] => (e, [])
  | e, b :: rest =>
    if b = byte '_' then scanExponent e rest
    else if isDigit b then scanExponent (if e < 10000 then 10 * e + (b.toNat - 48) else e) rest
    else (e, b :: rest)

/-- Scans an exponent after its mark: an optional sign and at least one digit. -/
def exponent? (t : Text) : Option (Int × Text) :=
  let (negative, digits) := splitSign t
  match digits with
  | b :: _ =>
    if isDigit b then
      let (e, rest) := scanExponent 0 digits
      some (if negative then -(e : Int) else e, rest)
    else none
  | [] => none

/-- The double nearest to `value * base ^ exponent`, where powers far outside the range of doubles
are not computed. An estimate of the number of binary digits tells which these are. -/
def scaled (negative : Bool) (value : Nat) (base : Nat) (exponent : Int) : Binary64 :=
  if value = 0 then Binary64.ofSign negative 0
  else
    let size : Int := (bitLength value : Int) + exponent * (if base = 10 then 332 else 100) / 100
    if 1400 < size then Binary64.infinity negative
    else if size < -1400 then Binary64.ofSign negative 0
    else if exponent < 0 then Binary64.ofRatio negative value (Nat.pow base exponent.natAbs)
    else Binary64.ofRatio negative (value * Nat.pow base exponent.toNat) 1

/-- The words for an infinity and for no number, in any case. -/
def special? (t : Text) : Option Binary64 :=
  let word (t : Text) : Bool :=
    let l := t.map lowerByte
    l == Text.ofString "inf" || l == Text.ofString "infinity"
  match t with
  | 43 :: rest => if word rest then some (Binary64.infinity false) else none
  | 45 :: rest => if word rest then some (Binary64.infinity true) else none
  | _ =>
    if word t then some (Binary64.infinity false)
    else if t.map lowerByte == Text.ofString "nan" then some Binary64.nan
    else none

/-- Takes the mark of a hexadecimal number off, if more text follows it: whether it was there, and
the rest. -/
def splitBase : Text → Bool × Text
  | 48 :: x :: b :: rest =>
    if lowerByte x = byte 'x' then (true, b :: rest) else (false, 48 :: x :: b :: rest)
  | t => (false, t)

/-- Reads a decimal or hexadecimal double, rounding it once. A hexadecimal one needs a binary
exponent. A value beyond the largest double is out of range. -/
def double? (t : Text) : Except NumeralFault Binary64 :=
  match special? t with
  | some x => .ok x
  | none =>
    let (negative, body) := splitSign t
    let (hex, digits) := splitBase body
    let m := scanMantissa hex {} digits
    let mark := if hex then byte 'p' else byte 'e'
    let tail : Option (Int × Text) := match m.rest with
      | c :: rest =>
        if lowerByte c = mark then exponent? rest
        else if hex then none else some (0, m.rest)
      | [] => if hex then none else some (0, [])
    match tail with
    | some (e, []) =>
      let underscores := t.contains (byte '_')
      let before := if hex then Seen.digit else Seen.start
      if !m.sawDigit || (underscores && !underscoresOk hex before digits) then .error .malformed
      else
        let x := if hex then scaled negative m.value 2 (e - 4 * m.behind)
          else scaled negative m.value 10 (e - m.behind)
        if x.isInfinite then .error .outOfRange else .ok x
    | _ => .error .malformed

end Numeral

end Reckoner
