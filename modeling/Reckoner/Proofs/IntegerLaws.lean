import Reckoner.Proofs.Broadcast
import Reckoner.Proofs.ExactIntegers

/-!
# Laws of integers

What the arithmetic operators give for two integers. Sums, differences, products and powers are
the exact ones, or refused if these have more than 64 bits. Quotients and remainders put the left
operand together again, with one exception: the quotient of the smallest integer and minus one
has more than 64 bits, and comes as it wraps around instead of being refused.
-/

namespace Reckoner

namespace Operator

variable {l r : Int64}

/-! ### Exact operators -/

/-- A result is the exact one, or refused with the right operand if that has more than 64 bits. -/
structure Exact (op : Operator) (r : Int64) (n : Int) (result : Except Error Value) : Prop where
  /-- An exact result that fits is given. -/
  fits : -2 ^ 63 ≤ n → n < 2 ^ 63 → ∃ k : Int64, k.toInt = n ∧ result = .ok (.int k)
  /-- Any other is refused. -/
  refused : n < -2 ^ 63 ∨ 2 ^ 63 ≤ n →
    result = .error (.outsideDomain (some (.int r)) 2 op.symbol)

theorem exact_fit? (op : Operator) (r : Int64) (n : Int) :
    Exact op r n (Integer.exact op.symbol r (Integer.fit? n)) := by
  refine ⟨fun hlo hhi => ?_, fun hout => ?_⟩
  · cases hfit : Integer.fit? n with
    | none =>
      have := Integer.fit?_eq_none.mp hfit
      omega
    | some k => exact ⟨k, (Integer.fit?_eq_some.mp hfit).symm, rfl⟩
  · rw [Integer.fit?_eq_none.mpr hout]
    rfl

theorem plus_exact (names : Names) (l r : Int64) :
    Exact plus r (l.toInt + r.toInt) (plus.outcome names (.int l) (.int r)) := by
  have hsum := exact_fit? plus r (l.toInt + r.toInt)
  rw [← Integer.sum?_eq] at hsum
  exact hsum

theorem minus_exact (names : Names) (l r : Int64) :
    Exact minus r (l.toInt - r.toInt) (minus.outcome names (.int l) (.int r)) := by
  have hdifference := exact_fit? minus r (l.toInt - r.toInt)
  rw [← Integer.difference?_eq] at hdifference
  exact hdifference

theorem times_exact (names : Names) (l r : Int64) :
    Exact times r (l.toInt * r.toInt) (times.outcome names (.int l) (.int r)) := by
  have hproduct := exact_fit? times r (l.toInt * r.toInt)
  rw [← Integer.product?_eq] at hproduct
  exact hproduct

theorem power_exact (names : Names) (l : Int64) (hr : 0 ≤ r) :
    Exact power r (l.toInt ^ r.toInt.toNat) (power.outcome names (.int l) (.int r)) := by
  have hone : (1 : Int64).toInt = 1 := rfl
  have hpower := exact_fit? power r (l.toInt ^ r.toInt.toNat)
  have hfit := Integer.powerFrom?_eq (x := l) (r := 1) r.toInt.toNat nofun
  have hints : Kernel.powerInts l r = Integer.pow l r := if_neg (Int64.not_lt.mpr hr)
  rw [hone, one_mul] at hfit
  rw [← hfit] at hpower
  show Exact power r _ (Kernel.powerInts l r)
  rw [hints]
  exact hpower

/-- **Sums, differences, products and powers of integers are exact or refused**, whatever the
products and squares on the way to a power are. -/
theorem integers_exact (names : Names) (l r : Int64) :
    Exact plus r (l.toInt + r.toInt) (plus.outcome names (.int l) (.int r)) ∧
    Exact minus r (l.toInt - r.toInt) (minus.outcome names (.int l) (.int r)) ∧
    Exact times r (l.toInt * r.toInt) (times.outcome names (.int l) (.int r)) ∧
    (0 ≤ r → Exact power r (l.toInt ^ r.toInt.toNat) (power.outcome names (.int l) (.int r))) :=
  ⟨plus_exact names l r, minus_exact names l r, times_exact names l r, power_exact names l⟩

/-- The power of a negative base that is just the smallest integer. On the way to it there are
squares up to `2 ^ 32`. -/
theorem smallest_power : (0 : Int64) ≤ 63 ∧
    power.outcome (fun _ => []) (.int (-2)) (.int 63) = .ok (.int Int64.minValue) := by
  refine ⟨by decide, ?_⟩
  obtain ⟨k, hk, hresult⟩ := ((integers_exact (fun _ => []) (-2) 63).2.2.2 (by decide)).fits
    (by decide) (by decide)
  obtain rfl : k = Int64.minValue := Int64.toInt_inj.mp (hk.trans (by decide))
  exact hresult

/-! ### Division -/

/-- The quotient and the remainder of a division: together they give the dividend, and the
remainder is smaller than the divisor, and zero or of the sign of the dividend. -/
structure Division (l r q m : Int) : Prop where
  /-- Quotient and remainder make up the dividend. -/
  eq : l = q * r + m
  /-- The remainder is smaller than the divisor. -/
  smaller : |m| < |r|
  /-- It is on the side of the dividend. -/
  sign : m = 0 ∨ m.sign = l.sign

/-- Truncated division is a division, unless its quotient wraps around. -/
theorem division (hr : r ≠ 0) (hmin : ¬ (l = Int64.minValue ∧ r = -1)) :
    Division l.toInt r.toInt (l / r).toInt (l % r).toInt := by
  have hzero : r.toInt ≠ 0 := fun h => hr (Int64.toInt_inj.mp h)
  have hquotient : (l / r).toInt = l.toInt.tdiv r.toInt := by
    by_cases hl : l = Int64.minValue
    · exact Int64.toInt_div_of_ne_right _ _ fun h => hmin ⟨hl, h⟩
    · exact Int64.toInt_div_of_ne_left _ _ hl
  rw [hquotient, Int64.toInt_mod]
  refine ⟨?_, ?_, ?_⟩
  · rw [mul_comm]
    exact (Int.mul_tdiv_add_tmod _ _).symm
  · have hlt := Nat.mod_lt l.toInt.natAbs (Int.natAbs_pos.mpr hzero)
    rw [Int.abs_eq_natAbs, Int.abs_eq_natAbs, Int.natAbs_tmod]
    exact_mod_cast hlt
  · have hsign := Int.sign_tmod l.toInt r.toInt
    split at hsign
    · exact .inl (Int.sign_eq_zero_iff_zero.mp hsign)
    · exact .inr hsign

/-- What a division is made of is put together by the operators: neither the product nor the sum
leaves 64 bits. The product is the dividend without a remainder of its sign, so it is no further
from zero. -/
theorem Division.recompose (names : Names) {q m : Int64}
    (h : Division l.toInt r.toInt q.toInt m.toInt) :
    ∃ p, times.outcome names (.int q) (.int r) = .ok (.int p) ∧
      plus.outcome names (.int p) (.int m) = .ok (.int l) := by
  have hl := And.intro l.le_toInt l.toInt_lt
  have hproduct : q.toInt * r.toInt = l.toInt - m.toInt := by
    have := h.eq
    omega
  have hrange : -2 ^ 63 ≤ l.toInt - m.toInt ∧ l.toInt - m.toInt < 2 ^ 63 := by
    have hm : m.toInt.natAbs < 2 ^ 63 := by
      have hr := And.intro r.le_toInt r.toInt_lt
      have hlt := h.smaller
      rw [Int.abs_eq_natAbs, Int.abs_eq_natAbs] at hlt
      omega
    rcases lt_trichotomy l.toInt 0 with hneg | hzero | hpos
    · have hsign : m.toInt ≤ 0 := by
        rcases h.sign with hm0 | hs
        · omega
        · rw [Int.sign_eq_neg_one_of_neg hneg] at hs
          exact (Int.sign_eq_neg_one_iff_neg.mp hs).le
      omega
    · omega
    · have hsign : 0 ≤ m.toInt := by
        rcases h.sign with hm0 | hs
        · omega
        · rw [Int.sign_eq_one_of_pos hpos] at hs
          exact (Int.sign_eq_one_iff_pos.mp hs).le
      omega
  obtain ⟨p, hp, htimes⟩ := (times_exact names q r).fits
    (hproduct ▸ hrange.1) (hproduct ▸ hrange.2)
  have hsum : p.toInt + m.toInt = l.toInt := by omega
  obtain ⟨k, hk, hplus⟩ := (plus_exact names p m).fits (hsum ▸ hl.1) (hsum ▸ hl.2)
  obtain rfl : k = l := Int64.toInt_inj.mp (hk.trans hsum)
  exact ⟨p, htimes, hplus⟩

/-- **Division of integers.** By zero it is refused. Otherwise there are a quotient and a remainder,
and a product and a sum that give the dividend back. One quotient does not fit: it is the smallest
integer again, with the remainder zero, though the product that it should be undone by is
refused. -/
theorem integers_divided (names : Names) (l r : Int64) :
    (r = 0 → divide.outcome names (.int l) (.int r) =
        .error (.outsideDomain (some (.int r)) 2 divide.symbol) ∧
      modulo.outcome names (.int l) (.int r) =
        .error (.outsideDomain (some (.int r)) 2 modulo.symbol)) ∧
    (r ≠ 0 → ¬ (l = Int64.minValue ∧ r = -1) → ∃ q m p : Int64,
      divide.outcome names (.int l) (.int r) = .ok (.int q) ∧
      modulo.outcome names (.int l) (.int r) = .ok (.int m) ∧
      Division l.toInt r.toInt q.toInt m.toInt ∧
      times.outcome names (.int q) (.int r) = .ok (.int p) ∧
      plus.outcome names (.int p) (.int m) = .ok (.int l)) ∧
    (l = Int64.minValue → r = -1 →
      divide.outcome names (.int l) (.int r) = .ok (.int l) ∧
      modulo.outcome names (.int l) (.int r) = .ok (.int 0) ∧
      times.outcome names (.int l) (.int r) =
        .error (.outsideDomain (some (.int r)) 2 times.symbol)) := by
  refine ⟨?_, fun hr hmin => ?_, ?_⟩
  · rintro rfl
    exact ⟨rfl, rfl⟩
  · have hdivide : divide.outcome names (.int l) (.int r) = .ok (.int (l / r)) := if_neg hr
    have hmodulo : modulo.outcome names (.int l) (.int r) = .ok (.int (l % r)) := if_neg hr
    have hdivision := division hr hmin
    obtain ⟨p, htimes, hplus⟩ := hdivision.recompose names
    exact ⟨l / r, l % r, p, hdivide, hmodulo, hdivision, htimes, hplus⟩
  · rintro rfl rfl
    exact ⟨rfl, rfl, rfl⟩

/-- Dividing minus seven by two gives minus three, and minus one is left. -/
theorem minusSeven_divided :
    (2 : Int64) ≠ 0 ∧ ¬ ((-7 : Int64) = Int64.minValue ∧ (2 : Int64) = -1) ∧
    ∃ p, times.outcome (fun _ => []) (.int (-3)) (.int 2) = .ok (.int p) ∧
      plus.outcome (fun _ => []) (.int p) (.int (-1)) = .ok (.int (-7)) := by
  refine ⟨by decide, by decide, ?_⟩
  obtain ⟨q, m, p, hdivide, hmodulo, -, htimes, hplus⟩ :=
    (integers_divided (fun _ => []) (-7) 2).2.1 (by decide) (by decide)
  obtain rfl : q = -3 := by
    cases hdivide
    decide
  obtain rfl : m = -1 := by
    cases hmodulo
    decide
  exact ⟨p, htimes, hplus⟩

/-- The smallest integer divided by minus one is not refused, and is no quotient. -/
theorem smallest_not_divided :
    divide.outcome (fun _ => []) (.int Int64.minValue) (.int (-1)) = .ok (.int Int64.minValue) ∧
    modulo.outcome (fun _ => []) (.int Int64.minValue) (.int (-1)) = .ok (.int 0) ∧
    ¬ Division Int64.minValue.toInt (-1 : Int64).toInt Int64.minValue.toInt (0 : Int64).toInt :=
  ⟨rfl, rfl, fun h => absurd h.eq (by decide)⟩

end Operator

end Reckoner
