import Reckoner.Proofs.Counting
import Reckoner.Proofs.ExactIntegers
import Reckoner.Proofs.Guarded

/-!
# Integers of 64 bits, step by step

Products, powers and intervals of integers with the divisions and the loops that they take. The
wrapped product is divided by one of its factors, which is not zero then. A power takes a round
for each bit of its exponent. An interval counts from one end to the other.
-/

namespace Reckoner

namespace Guarded

/-! ### Products -/

/-- The product, if it has 64 bits. The product of the smallest integer and minus one is sorted
out first, since their quotient wraps around too. -/
def product (x y : Int64) : Guarded (Option Int64) :=
  if x = 0 || y = 0 then return some 0
  else if x = -1 && y = Int64.minValue || y = -1 && x = Int64.minValue then return none
  else do return if (← quotient (x * y) y) = x then some (x * y) else none

theorem product_eq (x y : Int64) : product x y = .ok (Integer.product? x y) := by
  unfold product Integer.product?
  split
  · rfl
  · next h =>
    obtain ⟨-, hy⟩ : x ≠ 0 ∧ y ≠ 0 := by simpa using h
    rw [quotient_eq hy, ok_bind, pure_eq]
    split <;> rfl

/-! ### Powers -/

/-- The power of `x`, times `r`: squares the base and halves the exponent. -/
def powerFrom : (limit : Nat) → (x r : Int64) → (exponent : Nat) → Guarded (Option Int64)
  | 0, _, _, _ => .error .endless
  | limit + 1, x, r, exponent =>
    if exponent = 0 then return some r
    else do
      match ← (if exponent % 2 = 1 then product r x else return some r) with
      | none => return none
      | some r =>
        if exponent / 2 = 0 then return some r
        else
          match ← product x x with
          | none => return none
          | some x => powerFrom limit x r (exponent / 2)

/-- The power of an exponent that is not negative. -/
def powerOf (limit : Nat) (x y : Int64) : Guarded (Option Int64) :=
  powerFrom limit x 1 y.toInt.toNat

/-- Appends the integers from `x` to `b`, one step after the other. -/
def countTo : (limit : Nat) → (step b x : Int64) → List Value → Guarded (List Value)
  | 0, _, _, _, _ => .error .endless
  | limit + 1, step, b, x, items =>
    if x = b then return items ++ [.int x]
    else countTo limit step b (x + step) (items ++ [.int x])

/-- **The loop ends at the other end** of the interval, and takes no more rounds than there are
integers. -/
theorem countTo_eq {limit : Nat} {down : Bool} {b x : Int64}
    (hlimit : Kernel.stepsTo down b x < limit) (items : List Value) :
    countTo limit (Kernel.stride down) b x items =
      .ok (Kernel.countTo down b x items.reverse) := by
  induction limit generalizing x items with
  | zero => exact absurd hlimit (Nat.not_lt_zero _)
  | succ limit ih =>
    rw [countTo, Kernel.countTo]
    by_cases hx : x = b
    · rw [if_pos hx, if_pos hx, pure_eq, List.reverse_cons, List.reverse_reverse]
    · have hfewer : Kernel.stepsTo down b (x + Kernel.stride down) < Kernel.stepsTo down b x :=
        Kernel.stepsTo_lt hx
      rw [if_neg hx, if_neg hx, ih (by omega), List.reverse_append]
      rfl

end Guarded

end Reckoner
