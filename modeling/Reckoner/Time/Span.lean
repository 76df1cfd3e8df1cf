import Reckoner.Text.Basic

/-!
# Time spans

A time span is a number of nanoseconds. Its text counts hours, minutes and seconds, without
leading zero units; spans below a second use the largest unit that leaves a whole part.
-/

namespace Reckoner

namespace Span

/-- The digits behind a point, without trailing zeros; nothing at all for zero. -/
def fraction (value width : Nat) : Text :=
  if value = 0 then []
  else
    let digits := Text.padLeft '0' width (Text.ofNat value)
    Text.byte '.' :: (digits.reverse.dropWhile (· == Text.byte '0')).reverse

/-- A whole part, a fraction of `10 ^ width` parts, and a unit. -/
def decimal (value width : Nat) (unit : String) : Text :=
  Text.ofNat (value / Nat.pow 10 width) ++ fraction (value % Nat.pow 10 width) width ++ unit

/-- The text of a span. -/
def text (span : Int64) : Text :=
  let n := span.toInt.natAbs
  let sign : Text := if span < 0 then "-" else ""
  if n = 0 then "0s"
  else if n < 1000 then sign ++ decimal n 0 "ns"
  else if n < 1000000 then sign ++ decimal n 3 "µs"
  else if n < 1000000000 then sign ++ decimal n 6 "ms"
  else
    let seconds := n / 1000000000
    let low := decimal (n % 60000000000) 9 "s"
    if seconds < 60 then sign ++ low
    else if seconds < 3600 then sign ++ Text.ofNat (seconds / 60) ++ "m" ++ low
    else
      sign ++ Text.ofNat (seconds / 3600) ++ "h" ++ Text.ofNat (seconds / 60 % 60) ++ "m" ++ low

end Span

end Reckoner
