import Mathlib.Tactic
import Reckoner.Operator.Integer

/-!
# Exact results of integer arithmetic

What wraps around in 64 bits is off by a multiple of `2 ^ 64`. A sum or difference is off by that
much at most once, which its sign tells. A product can be off by any multiple, but then dividing
it by one factor does not give the other. A power is given up at the first product that does not
fit, and rightly so, since no factor that is still to come could bring it back into 64 bits.

So each of the four is the exact result wherever that fits, and nothing where it does not.
-/

namespace Reckoner

namespace Integer

/-! ### Which results fit -/

/-- The exact result, if it has 64 bits. -/
def fit? (n : Int) : Option Int64 :=
  if -(Nat.pow 2 63) ≤ n && n < Nat.pow 2 63 then some (Int64.ofInt n) else none

theorem fit?_eq_some {n : Int} {k : Int64} : fit? n = some k ↔ n = k.toInt := by
  have hlo := k.le_toInt
  have hhi := k.toInt_lt
  unfold fit?
  split
  · next h =>
    simp only [Bool.and_eq_true, decide_eq_true_eq, Nat.pow_eq, Nat.cast_pow, Nat.cast_ofNat] at h
    have htoInt : (Int64.ofInt n).toInt = n := Int64.toInt_ofInt_of_le (by omega) (by omega)
    rw [Option.some_inj, ← Int64.toInt_inj, htoInt]
  · next h =>
    simp only [Bool.and_eq_true, decide_eq_true_eq, Nat.pow_eq, Nat.cast_pow, Nat.cast_ofNat] at h
    constructor
    · nofun
    · rintro rfl
      omega

theorem fit?_toInt (k : Int64) : fit? k.toInt = some k := fit?_eq_some.mpr rfl

theorem fit?_eq_none {n : Int} : fit? n = none ↔ n < -2 ^ 63 ∨ 2 ^ 63 ≤ n := by
  unfold fit?
  split
  · next h =>
    simp only [Bool.and_eq_true, decide_eq_true_eq, Nat.pow_eq, Nat.cast_pow, Nat.cast_ofNat] at h
    simp only [reduceCtorEq, false_iff]
    omega
  · next h =>
    simp only [Bool.and_eq_true, decide_eq_true_eq, Nat.pow_eq, Nat.cast_pow, Nat.cast_ofNat] at h
    simp only [true_iff]
    omega

/-- What does not fit does not fit as a positive multiple. -/
theorem fit?_mul_none {n k : Int} (hn : fit? n = none) (hk : 0 < k) : fit? (n * k) = none := by
  rw [fit?_eq_none] at hn ⊢
  rcases hn with hn | hn
  · left
    nlinarith
  · right
    nlinarith

/-- A square that does not fit does not fit as a multiple, whatever its sign: no square is the
smallest integer without its sign. -/
theorem fit?_square_none {x : Int64} {k : Int} (hx : fit? (x.toInt * x.toInt) = none)
    (hk : k ≠ 0) : fit? (x.toInt * x.toInt * k) = none := by
  have hsquare : 2 ^ 63 < x.toInt * x.toInt := by
    have hle : 2 ^ 63 ≤ x.toInt * x.toInt := by
      rcases fit?_eq_none.mp hx with h | h
      · nlinarith [mul_self_nonneg x.toInt]
      · exact h
    rcases Int.lt_or_le x.toInt 0 with hneg | hpos
    · have hroot : x.toInt ≤ -3037000500 := by nlinarith
      nlinarith
    · have hroot : 3037000500 ≤ x.toInt := by nlinarith
      nlinarith
  rw [fit?_eq_none]
  rcases Int.lt_or_gt_of_ne hk with hneg | hpos
  · left
    nlinarith
  · right
    nlinarith

/-! ### Sums and differences -/

/-- What is less than `2 ^ 64` away from zero wraps around at most once. -/
theorem bmod_cases {n : Int} (hn : -2 ^ 64 ≤ n ∧ n < 2 ^ 64) :
    (-2 ^ 63 ≤ n ∧ n < 2 ^ 63) ∧ n.bmod (2 ^ 64) = n ∨
      2 ^ 63 ≤ n ∧ n.bmod (2 ^ 64) = n - 2 ^ 64 ∨ n < -2 ^ 63 ∧ n.bmod (2 ^ 64) = n + 2 ^ 64 := by
  rcases Int.lt_or_le n (-2 ^ 63) with hlow | hlow
  · refine .inr (.inr ⟨hlow, ?_⟩)
    rw [← Int.add_bmod_right]
    exact Int.bmod_eq_of_le (by omega) (by omega)
  · rcases Int.lt_or_le n (2 ^ 63) with hhigh | hhigh
    · exact .inl ⟨⟨hlow, hhigh⟩, Int.bmod_eq_of_le (by omega) (by omega)⟩
    · refine .inr (.inl ⟨hhigh, ?_⟩)
      rw [← Int.sub_bmod_right]
      exact Int.bmod_eq_of_le (by omega) (by omega)

theorem nonneg_iff (k : Int64) : 0 ≤ k ↔ 0 ≤ k.toInt := Int64.le_iff_toInt_le

/-- **The signs tell whether a sum fits.** -/
theorem sum?_eq (l r : Int64) : sum? l r = fit? (l.toInt + r.toInt) := by
  have hl := And.intro l.le_toInt l.toInt_lt
  have hr := And.intro r.le_toInt r.toInt_lt
  have hcases := bmod_cases (n := l.toInt + r.toInt) (by omega)
  rw [← Int64.toInt_add] at hcases
  unfold sum?
  simp only [nonneg_iff]
  split
  · next h => exact (fit?_eq_none.mpr (by omega)).symm
  · next h => exact (fit?_eq_some.mpr (by omega)).symm

/-- **The signs tell whether a difference fits.** -/
theorem difference?_eq (l r : Int64) : difference? l r = fit? (l.toInt - r.toInt) := by
  have hl := And.intro l.le_toInt l.toInt_lt
  have hr := And.intro r.le_toInt r.toInt_lt
  have hcases := bmod_cases (n := l.toInt - r.toInt) (by omega)
  rw [← Int64.toInt_sub] at hcases
  unfold difference?
  simp only [nonneg_iff]
  split
  · next h => exact (fit?_eq_none.mpr (by omega)).symm
  · next h => exact (fit?_eq_some.mpr (by omega)).symm

/-! ### Products -/

/-- A wrapped product that gives one factor back when divided by the other is exact. What remains of
the product and what it lacks are both smaller than the divisor. -/
theorem exact_of_quotient {x y : Int64} (hy : y ≠ 0) (hmin : ¬ (y = -1 ∧ x = Int64.minValue))
    (h : x * y / y = x) : (x * y).toInt = x.toInt * y.toInt := by
  have hquotient : (x * y).toInt.tdiv y.toInt = x.toInt := by
    by_cases hminus : y = -1
    · by_cases hp : x * y = Int64.minValue
      · rw [hp, hminus] at h
        exact absurd ⟨hminus, h.symm⟩ hmin
      · rw [← Int64.toInt_div_of_ne_left _ _ hp, h]
    · rw [← Int64.toInt_div_of_ne_right _ _ hminus, h]
  have hdiv := Int.mul_tdiv_add_tmod (x * y).toInt y.toInt
  rw [hquotient] at hdiv
  have hrest : |(x * y).toInt.tmod y.toInt| < 2 ^ 64 := by
    have hzero : y.toInt ≠ 0 := fun h0 => hy (Int64.toInt_inj.mp h0)
    have hlt := Nat.mod_lt (x * y).toInt.natAbs (Int.natAbs_pos.mpr hzero)
    rw [← Int.natAbs_tmod] at hlt
    have hlo := y.le_toInt
    have hhi := y.toInt_lt
    rw [Int.abs_eq_natAbs]
    omega
  have hwrapped : (2 ^ 64 : Int) ∣ (x * y).toInt.tmod y.toInt := by
    have hdvd : ((2 ^ 64 : Nat) : Int) ∣ (x.toInt * y.toInt).bmod (2 ^ 64) - x.toInt * y.toInt :=
      Int.dvd_bmod_sub_self
    have hlack : (x * y).toInt.tmod y.toInt = (x * y).toInt - x.toInt * y.toInt := by
      linarith [mul_comm x.toInt y.toInt]
    rw [← Int64.toInt_mul] at hdvd
    rw [hlack]
    exact_mod_cast hdvd
  have hnone := Int.eq_zero_of_abs_lt_dvd hwrapped hrest
  rw [hnone, add_zero, mul_comm] at hdiv
  exact hdiv.symm

/-- **The quotient tells whether a product fits.** -/
theorem product?_eq (x y : Int64) : product? x y = fit? (x.toInt * y.toInt) := by
  unfold product?
  split
  · next h =>
    have hzero : x.toInt * y.toInt = 0 := by
      rcases (by simpa using h : x = 0 ∨ y = 0) with rfl | rfl
      · exact zero_mul _
      · exact mul_zero _
    rw [hzero]
    rfl
  · next h =>
    obtain ⟨-, hy⟩ : x ≠ 0 ∧ y ≠ 0 := by simpa using h
    split
    · next h =>
      have hlarge : x.toInt * y.toInt = 2 ^ 63 := by
        rcases (by simpa using h : x = -1 ∧ y = Int64.minValue ∨ y = -1 ∧ x = Int64.minValue) with
          ⟨rfl, rfl⟩ | ⟨rfl, rfl⟩ <;> rfl
      rw [hlarge]
      rfl
    · next h =>
      have hmin : ¬ (y = -1 ∧ x = Int64.minValue) := by
        simp only [Bool.or_eq_true, Bool.and_eq_true, decide_eq_true_eq, not_or] at h
        exact h.2
      split
      · next hexact => rw [← exact_of_quotient hy hmin hexact, fit?_toInt]
      · next hinexact =>
        cases hfit : fit? (x.toInt * y.toInt) with
        | none => rfl
        | some k =>
          refine absurd ?_ hinexact
          have hk : (x * y).toInt = x.toInt * y.toInt := by
            rw [Int64.toInt_mul, fit?_eq_some.mp hfit]
            exact Int64.toInt_bmod k
          have hzero : y.toInt ≠ 0 := fun h0 => hy (Int64.toInt_inj.mp h0)
          rw [← Int64.toInt_inj, Int64.toInt_div, hk, Int.mul_tdiv_cancel _ hzero,
            Int64.toInt_bmod]

/-! ### Powers -/

/-- The power that is to come, when the base is squared and the exponent halved. -/
theorem pow_split (x r : Int) (exponent : Nat) :
    r * x ^ exponent = r * x ^ (exponent % 2) * (x * x) ^ (exponent / 2) := by
  rw [← sq, ← pow_mul, mul_assoc, ← pow_add, Nat.mod_add_div]

/-- One round: the factor of an odd exponent. -/
theorem round_eq (x r : Int64) (exponent : Nat) :
    (if exponent % 2 = 1 then product? r x else some r) =
      fit? (r.toInt * x.toInt ^ (exponent % 2)) := by
  split
  · next h => rw [product?_eq, h, pow_one]
  · next h => rw [show exponent % 2 = 0 by omega, pow_zero, mul_one, fit?_toInt]

/-- Where the product of a round does not fit, nor does the power. -/
theorem round_none {x r : Int64} {exponent : Nat}
    (hround : fit? (r.toInt * x.toInt ^ (exponent % 2)) = none) :
    fit? (r.toInt * x.toInt ^ exponent) = none := by
  have hx : x.toInt ≠ 0 := by
    intro hx
    rcases Nat.mod_two_eq_zero_or_one exponent with h | h
    · rw [h, pow_zero, mul_one, fit?_toInt] at hround
      cases hround
    · rw [h, pow_one, hx, mul_zero] at hround
      cases hround
  rw [pow_split]
  exact fit?_mul_none hround (pow_pos (mul_self_pos.mpr hx) _)

/-- Where the square of the base does not fit but is a factor of the power, nor does the power. -/
theorem square_none {x r : Int64} {exponent : Nat} (hexponent : exponent ≠ 0)
    (hr : r.toInt = 0 → x.toInt = 0) (hsquare : fit? (x.toInt * x.toInt) = none) :
    fit? (r.toInt * (x.toInt * x.toInt) ^ exponent) = none := by
  have hx : x.toInt ≠ 0 := by
    intro hx
    rw [hx, mul_zero] at hsquare
    cases hsquare
  have hfactor : r.toInt * (x.toInt * x.toInt) ^ exponent =
      x.toInt * x.toInt * (r.toInt * (x.toInt * x.toInt) ^ (exponent - 1)) := by
    rw [mul_left_comm, mul_pow_sub_one hexponent]
  rw [hfactor]
  exact fit?_square_none hsquare
    (mul_ne_zero (fun h => hx (hr h)) (pow_ne_zero _ (mul_self_ne_zero.mpr hx)))

/-- **Squaring finds the power**, or that it does not fit. What has been multiplied so far, times
the power that is still to come, is the same in each round; and it is zero only if the base is. -/
theorem powerFrom?_eq {x r : Int64} (exponent : Nat) (hr : r = 0 → x = 0) :
    powerFrom? x r exponent = fit? (r.toInt * x.toInt ^ exponent) := by
  induction exponent using Nat.strong_induction_on generalizing x r with
  | _ exponent ih =>
    rw [powerFrom?]
    split
    · next h => rw [h, pow_zero, mul_one, fit?_toInt]
    · next hpos =>
      rw [round_eq]
      cases hround : fit? (r.toInt * x.toInt ^ (exponent % 2)) with
      | none => exact (round_none hround).symm
      | some r' =>
        have hr' := fit?_eq_some.mp hround
        have hkeep : r'.toInt = 0 → x.toInt = 0 := by
          intro hzero
          rw [← hr'] at hzero
          rcases mul_eq_zero.mp hzero with h | h
          · rw [hr (Int64.toInt_inj.mp h)]
            rfl
          · exact eq_zero_of_pow_eq_zero h
        rw [pow_split, hr']
        dsimp only
        split
        · next hlast => rw [hlast, pow_zero, mul_one, fit?_toInt]
        · next hmore =>
          rw [product?_eq]
          cases hsquare : fit? (x.toInt * x.toInt) with
          | none => exact (square_none hmore hkeep hsquare).symm
          | some x' =>
            have hx' := fit?_eq_some.mp hsquare
            rw [hx']
            refine ih _ (by omega) fun hzero => Int64.toInt_inj.mp ?_
            rw [← hx', hkeep (by rw [hzero]; rfl)]
            rfl

end Integer

end Reckoner
