import Reckoner.Error

/-!
# Integer arithmetic

Integers have 64 bits, and computing with them wraps around. Sums, differences, products and
powers are exact nevertheless: a result that has wrapped around shows by its sign or by its
quotient, and is an error on the second operand. Quotients and remainders are truncated toward
zero, and taken as they come.
-/

namespace Reckoner

namespace Integer

/-- The result as a value, or an error on the second operand `r`. -/
def exact (op : Text) (r : Int64) (n : Option Int64) : Except Error Value :=
  match n with
  | some n => .ok (.int n)
  | none => .error (.outsideDomain (some (.int r)) 2 op)

/-- The sum, unless operands of one sign have a sum of the other. -/
def sum? (l r : Int64) : Option Int64 :=
  if (0 ≤ l ↔ 0 ≤ r) ∧ ¬ (0 ≤ l + r ↔ 0 ≤ l) then none else some (l + r)

/-- The difference, unless operands of different signs have one of the sign of the second. -/
def difference? (l r : Int64) : Option Int64 :=
  if ¬ (0 ≤ l ↔ 0 ≤ r) ∧ ¬ (0 ≤ l - r ↔ 0 ≤ l) then none else some (l - r)

/-- The product, unless dividing it by one factor does not give the other back. The product of
the smallest integer and minus one is sorted out first, since their quotient wraps around too. -/
def product? (x y : Int64) : Option Int64 :=
  if x = 0 || y = 0 then some 0
  else if x = -1 && y = Int64.minValue || y = -1 && x = Int64.minValue then none
  else if x * y / y = x then some (x * y) else none

/-- The power of `x`, times `r`: squares the base and halves the exponent, up to the first
product that wraps around. -/
def powerFrom? (x r : Int64) (exponent : Nat) : Option Int64 :=
  if exponent = 0 then some r
  else
    match if exponent % 2 = 1 then product? r x else some r with
    | none => none
    | some r =>
      if exponent / 2 = 0 then some r
      else
        match product? x x with
        | none => none
        | some x => powerFrom? x r (exponent / 2)
termination_by exponent

/-- The sum, if it fits in 64 bits. -/
def add (l r : Int64) : Except Error Value := exact "+" r (sum? l r)

/-- The difference, if it fits in 64 bits. -/
def sub (l r : Int64) : Except Error Value := exact "-" r (difference? l r)

/-- The product, if it fits in 64 bits. -/
def mul (l r : Int64) : Except Error Value := exact "*" r (product? l r)

/-- The power, for an exponent that is not negative. -/
def pow (l r : Int64) : Except Error Value := exact "^" r (powerFrom? l 1 r.toInt.toNat)

/-- The quotient, rounded toward zero. The least integer divided by -1 wraps around to itself. -/
def div (l r : Int64) : Except Error Value :=
  if r = 0 then .error (.outsideDomain (some (.int r)) 2 "/") else .ok (.int (l / r))

/-- The remainder, which has the sign of the left operand. -/
def mod (l r : Int64) : Except Error Value :=
  if r = 0 then .error (.outsideDomain (some (.int r)) 2 "%") else .ok (.int (l % r))

end Integer

end Reckoner
