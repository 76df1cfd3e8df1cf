import Mathlib.Tactic
import Reckoner.Operator.Collection

/-!
# Counting and measuring

What the kernels for collections do in 64 bits, said over the integers. The distance of two
integers without a sign is never too large for its bits. A count that goes from one integer
towards another takes as many steps as they are apart and meets the other one, so that no integer
in between wraps around. And a quotient says whether a product is too large, without computing it.
-/

namespace Reckoner

namespace Kernel

/-! ### Distances -/

theorem toNat_sub_toUInt64 {a b : Int64} (h : a.toInt ≤ b.toInt) :
    (b.toUInt64 - a.toUInt64).toNat = (b.toInt - a.toInt).natAbs := by
  have hsign : ∀ k : Int64, k.toInt = k.toUInt64.toNat ∨ k.toInt = k.toUInt64.toNat - 2 ^ 64 := by
    intro k
    have hcond : k.toInt = if 2 * k.toUInt64.toNat < 2 ^ 64 then (k.toUInt64.toNat : Int)
      else k.toUInt64.toNat - ((2 ^ 64 : Nat) : Int) := BitVec.toInt_eq_toNat_cond k.toBitVec
    split at hcond <;> omega
  have ha := a.toUInt64.toNat_lt
  have hb := b.toUInt64.toNat_lt
  have hlo := a.le_toInt
  have hhi := b.toInt_lt
  rw [UInt64.toNat_sub]
  rcases hsign a with hsa | hsa <;> rcases hsign b with hsb | hsb <;> omega

theorem toNat_distance (a b : Int64) : (distance a b).toNat = (b.toInt - a.toInt).natAbs := by
  unfold distance
  split
  · next h =>
    rw [toNat_sub_toUInt64 (Int64.lt_iff_toInt_lt.mp h).le]
    omega
  · next h => exact toNat_sub_toUInt64 (Int.not_lt.mp fun hlt => h (Int64.lt_iff_toInt_lt.mpr hlt))

/-- A count towards the other integer takes as many steps as they are apart. -/
theorem stepsTo_eq (a b : Int64) : stepsTo (b < a) b a = (distance a b).toNat := by
  unfold stepsTo distance
  by_cases h : b < a
  · rw [if_pos (decide_eq_true h), if_pos h, Int64.toUInt64_sub]
  · rw [if_neg (by simpa using h), if_neg h, Int64.toUInt64_sub]

/-! ### Counts -/

/-- The integers from `a` to `b`, both included, in the direction from one to the other. -/
def integersBetween (a b : Int) : List Value :=
  if a ≤ b then
    (List.range ((b - a).toNat + 1)).map fun (k : Nat) => .int (Int64.ofInt (a + k))
  else
    (List.range ((a - b).toNat + 1)).map fun (k : Nat) => .int (Int64.ofInt (a - k))

theorem toInt_stride (down : Bool) : (stride down).toInt = if down then -1 else 1 := by
  cases down <;> rfl

/-- A step towards `b` does not wrap around. -/
theorem toInt_step {down : Bool} {n : Nat} {b x : Int64}
    (hb : b.toInt = x.toInt + (stride down).toInt * (n + 1 : Nat)) :
    (x + stride down).toInt = x.toInt + (stride down).toInt := by
  have hlo := b.le_toInt
  have hhi := b.toInt_lt
  have hlo' := x.le_toInt
  have hhi' := x.toInt_lt
  rw [Int64.toInt_add]
  cases down <;> simp only [toInt_stride] at hb ⊢ <;>
    exact Int.bmod_eq_of_le_mul_two (by push_cast at hb ⊢; omega) (by push_cast at hb ⊢; omega)

/-- **A count ends at the other end**, if it goes towards it: it takes every step in between. -/
theorem countTo_eq {down : Bool} {n : Nat} {b x : Int64}
    (hb : b.toInt = x.toInt + (stride down).toInt * n) (counted : List Value) :
    countTo down b x counted = counted.reverse ++ (List.range (n + 1)).map fun (k : Nat) =>
      .int (Int64.ofInt (x.toInt + (stride down).toInt * k)) := by
  induction n generalizing x counted with
  | zero =>
    obtain rfl : x = b := Int64.toInt_inj.mp (by rw [hb]; simp)
    rw [countTo, if_pos rfl]
    simp
  | succ n ih =>
    have hx : x ≠ b := by
      rintro rfl
      cases down <;> simp only [toInt_stride] at hb <;> push_cast at hb <;> omega
    have hnext := toInt_step hb
    have hb' : b.toInt = (x + stride down).toInt + (stride down).toInt * n := by
      rw [hb, hnext]
      push_cast
      ring
    have hfirst : Int64.ofInt (x.toInt + (stride down).toInt * ((0 : Nat) : Int)) = x := by simp
    have hrest : ∀ k : Nat, x.toInt + (stride down).toInt + (stride down).toInt * (k : Int) =
        x.toInt + (stride down).toInt * (k.succ : Int) := fun k => by
      push_cast
      ring
    have hrange : List.range (n + 1 + 1) = 0 :: (List.range (n + 1)).map Nat.succ :=
      List.range_succ_eq_map
    rw [countTo, if_neg hx, ih hb', hnext, List.reverse_cons, List.append_assoc,
      List.singleton_append, hrange, List.map_cons, List.map_map, hfirst]
    simp only [hrest, Function.comp_def]

/-- What is counted from one integer to the other is the interval, in both directions. -/
theorem countTo_between (a b : Int64) :
    countTo (b < a) b a [] = integersBetween a.toInt b.toInt := by
  by_cases hlt : b < a
  · have hlt' := Int64.lt_iff_toInt_lt.mp hlt
    have hend : b.toInt = a.toInt + (stride true).toInt * ((a.toInt - b.toInt).toNat : Int) := by
      rw [toInt_stride, if_pos rfl]
      omega
    rw [decide_eq_true hlt, countTo_eq hend, integersBetween, if_neg (by omega), toInt_stride]
    simp [sub_eq_add_neg]
  · have hle := not_lt.mp fun h => hlt (Int64.lt_iff_toInt_lt.mpr h)
    have hend : b.toInt = a.toInt + (stride false).toInt * ((b.toInt - a.toInt).toNat : Int) := by
      rw [toInt_stride, if_neg nofun]
      omega
    rw [decide_eq_false hlt, countTo_eq hend, integersBetween, if_pos hle, toInt_stride]
    simp

/-- **An interval** is made of the integers between two others, if they are not too far apart. -/
theorem interval_eq (a b : Int64) : interval (.int a) (.int b) = some (
    if (b.toInt - a.toInt).natAbs < maxCollectionLength then
      .ok (.array .int (integersBetween a.toInt b.toInt))
    else .error (.outsideDomain (some (.int b)) 2 "...")) := by
  rw [interval, toNat_distance, countTo_between]
  by_cases h : maxCollectionLength ≤ (b.toInt - a.toInt).natAbs
  · rw [if_pos h, if_neg (not_lt.mpr h)]
  · rw [if_neg h, if_pos (not_le.mp h)]

/-! ### Repetition -/

/-- **The quotient decides** whether the product is too large. -/
theorem tooLong_iff {length : Nat} {n : Int64} (hn : 0 ≤ n.toInt) :
    tooLong length n = true ↔ (maxCollectionLength : Int) < n.toInt * length := by
  obtain ⟨k, hk⟩ := Int.eq_ofNat_of_zero_le hn
  simp only [tooLong, Bool.and_eq_true, decide_eq_true_eq, hk]
  constructor
  · rintro ⟨hpos, hlt⟩
    exact_mod_cast (Nat.div_lt_iff_lt_mul hpos).mp (by exact_mod_cast hlt)
  · intro hlt
    have hpos : 0 < length := Nat.pos_of_ne_zero fun hzero => by
      rw [hzero, Nat.cast_zero, mul_zero] at hlt
      omega
    exact ⟨hpos, by exact_mod_cast (Nat.div_lt_iff_lt_mul hpos).mpr (by exact_mod_cast hlt)⟩

end Kernel

end Reckoner
