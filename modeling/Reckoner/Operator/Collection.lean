import Reckoner.Operator.Arithmetic

/-!
# Kernels that build collections

Replication of a value and intervals of integers, up to a greatest length. An interval is counted
in 64 bits. How long it gets is known before, from the distance of its ends without a sign, and
the count goes on until it meets the end.
-/

namespace Reckoner

namespace Kernel

/-- An array that holds the left value as often as the right one says. -/
def generate (l r : Value) : Answer :=
  match r with
  | .int n => some <|
    if 0 ≤ n && n.toInt ≤ maxCollectionLength then
      .ok (.array l.kind (List.replicate n.toInt.toNat l))
    else .error (.outsideDomain (some (.int n)) 2 "#")
  | _ => none

/-- How far two integers are apart, in 64 bits without a sign. -/
def distance (a b : Int64) : UInt64 :=
  if b < a then a.toUInt64 - b.toUInt64 else b.toUInt64 - a.toUInt64

/-- The step of a count in one direction. -/
def stride (down : Bool) : Int64 := if down then -1 else 1

/-- How many steps a count takes from `x` to `b`; it gets there in either direction, since integers
wrap around. -/
def stepsTo (down : Bool) (b x : Int64) : Nat := (if down then x - b else b - x).toUInt64.toNat

theorem toNat_pred {d : Int64} (hd : d ≠ 0) : (d - 1).toUInt64.toNat < d.toUInt64.toNat := by
  have hpos : d.toUInt64.toNat ≠ 0 := fun h => hd <| by
    have hzero : d.toUInt64 = 0 := UInt64.toNat_inj.mp h
    rw [← d.toInt64_toUInt64, hzero]
    rfl
  have hone : (1 : Int64).toUInt64 = 1 := rfl
  have hle : (1 : UInt64) ≤ d.toUInt64 := UInt64.le_iff_toNat_le.mpr (Nat.pos_of_ne_zero hpos)
  rw [Int64.toUInt64_sub, hone, UInt64.toNat_sub_of_le _ _ hle, UInt64.toNat_one]
  omega

theorem stepsTo_lt {down : Bool} {b x : Int64} (hx : x ≠ b) :
    stepsTo down b (x + stride down) < stepsTo down b x := by
  cases down with
  | true =>
    have hnext : x + -1 - b = x - b - 1 := by grind
    have hleft : x - b ≠ 0 := by grind
    simpa [stepsTo, stride, hnext] using toNat_pred hleft
  | false =>
    have hnext : b - (x + 1) = b - x - 1 := by grind
    have hleft : b - x ≠ 0 := by grind
    simpa [stepsTo, stride, hnext] using toNat_pred hleft

/-- Counts from `x` on until `b` is met, behind what has been counted, the last integer first. -/
def countTo (down : Bool) (b x : Int64) (counted : List Value) : List Value :=
  if x = b then (.int x :: counted).reverse
  else countTo down b (x + stride down) (.int x :: counted)
termination_by stepsTo down b x
decreasing_by exact stepsTo_lt ‹_›

/-- The integers from one to the other, both included, in the direction from the first. -/
def interval (l r : Value) : Answer :=
  match l, r with
  | .int a, .int b => some <|
    if maxCollectionLength ≤ (distance a b).toNat then
      .error (.outsideDomain (some (.int b)) 2 "...")
    else .ok (.array .int (countTo (b < a) b a []))
  | _, _ => none

end Kernel

end Reckoner
