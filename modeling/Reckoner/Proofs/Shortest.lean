import Mathlib.Tactic
import Reckoner.Proofs.Rounding

/-!
# The shortest digits

What `shortest` finds for a finite double: the decimal point stands where the size of the number
says, some number of digits up to 17 is enough, and the digits are a number of exactly that many
digits inside of the reading interval.
-/

namespace Reckoner

namespace Binary64

/-! ### Powers of ten and of two -/

theorem tenTo_pos (e : Int) : 0 < (tenTo e).1 ∧ 0 < (tenTo e).2 := by
  unfold tenTo
  split <;> simp

/-- The fraction is the power of ten. -/
theorem tenTo_eq (e : Int) : ((tenTo e).1 : ℚ) = 10 ^ e * (tenTo e).2 := by
  unfold tenTo
  simp only [Nat.pow_eq]
  split
  · rename_i h
    obtain ⟨n, rfl⟩ : ∃ n : Nat, e = -(n : Int) := ⟨e.natAbs, by omega⟩
    rw [Int.natAbs_neg, Int.natAbs_natCast, zpow_neg, zpow_natCast]
    push_cast
    rw [inv_mul_cancel₀ (by positivity)]
  · rename_i h
    obtain ⟨n, rfl⟩ := Int.eq_ofNat_of_zero_le (not_lt.mp h)
    rw [Int.toNat_natCast, zpow_natCast]
    push_cast
    rw [mul_one]

/-- A power of two below a power of ten, by `2 ^ 93 < 10 ^ 28` and `10 ^ 3 < 2 ^ 10`. -/
theorem two_zpow_le_ten_zpow {a b : Int}
    (h : 0 ≤ a ∧ 28 * a ≤ 93 * b ∨ a ≤ 0 ∧ 3 * a ≤ 10 * b) : (2 : ℚ) ^ a ≤ 10 ^ b := by
  rcases h with ⟨ha, hab⟩ | ⟨ha, hab⟩
  · obtain ⟨n, rfl⟩ := Int.eq_ofNat_of_zero_le ha
    have hpow : ((2 : ℚ) ^ (n : Int)) ^ 93 ≤ (10 ^ b) ^ 93 := by
      calc ((2 : ℚ) ^ (n : Int)) ^ 93 = (2 ^ 93) ^ n := by rw [zpow_natCast, pow_right_comm]
        _ ≤ (10 ^ 28) ^ n := pow_le_pow_left₀ (by norm_num) (by norm_num) n
        _ = 10 ^ (28 * (n : Int)) := by rw [← pow_mul]; norm_cast
        _ ≤ 10 ^ (b * 93) := zpow_le_zpow_right₀ (by norm_num) (by omega)
        _ = (10 ^ b) ^ 93 := by rw [zpow_mul]; norm_cast
    exact le_of_pow_le_pow_left₀ (by norm_num) (by positivity) hpow
  · obtain ⟨n, hn⟩ := Int.eq_ofNat_of_zero_le (show 0 ≤ -a by omega)
    obtain rfl : a = -(n : Int) := by omega
    have hpow : ((2 : ℚ) ^ (-(n : Int))) ^ 10 ≤ (10 ^ b) ^ 10 := by
      calc ((2 : ℚ) ^ (-(n : Int))) ^ 10 = ((2 ^ 10) ^ n)⁻¹ := by
            rw [zpow_neg, zpow_natCast, inv_pow, pow_right_comm]
        _ ≤ ((10 ^ 3) ^ n)⁻¹ :=
            inv_anti₀ (by positivity) (pow_le_pow_left₀ (by norm_num) (by norm_num) n)
        _ = 10 ^ (-(3 * (n : Int))) := by rw [← pow_mul, zpow_neg]; norm_cast
        _ ≤ 10 ^ (b * 10) := zpow_le_zpow_right₀ (by norm_num) (by omega)
        _ = (10 ^ b) ^ 10 := by rw [zpow_mul]; norm_cast
    exact le_of_pow_le_pow_left₀ (by norm_num) (by positivity) hpow

/-! ### The decimal point -/

/-- The exponent is kept apart, so that the power is never computed. -/
theorem unitsOfOne_eq : ∃ k : Nat, k = 1074 ∧ unitsOfOne = 2 ^ k := by
  refine ⟨1074, rfl, ?_⟩
  unfold unitsOfOne
  generalize 1074 = exponent
  exact Nat.pow_eq

theorem unitsOfOne_pos : 0 < unitsOfOne := by
  obtain ⟨k, -, h⟩ := unitsOfOne_eq
  rw [h]
  positivity

/-- A number of units lies between two neighbouring powers of two. -/
theorem units_bounds {units k : Nat} (hpos : 0 < units) :
    (2 : ℚ) ^ ((bitLength units : Int) - 1 - k) * ((2 ^ k : Nat) : ℚ) ≤ units ∧
      (units : ℚ) < 2 ^ ((bitLength units : Int) - k) * ((2 ^ k : Nat) : ℚ) := by
  have hbl : 0 < bitLength units := lt_bitLength_iff.mpr hpos
  have hcast : ((2 ^ k : Nat) : ℚ) = 2 ^ (k : Int) := by push_cast; rw [zpow_natCast]
  rw [hcast, ← zpow_add₀ (by norm_num), ← zpow_add₀ (by norm_num), sub_add_cancel, sub_add_cancel]
  constructor
  · have h : 2 ^ (bitLength units - 1) ≤ units := lt_bitLength_iff.mp (by omega)
    rw [show (bitLength units : Int) - 1 = ((bitLength units - 1 : Nat) : Int) by omega,
      zpow_natCast]
    exact_mod_cast h
  · rw [zpow_natCast]
    exact_mod_cast lt_two_pow_bitLength units

/-- Whether a number of units, `one` of which are one, reaches a power of ten. -/
theorem reaches_iff (units one : Nat) (p : Int) :
    (tenTo p).1 * one ≤ units * (tenTo p).2 ↔ (10 : ℚ) ^ p * one ≤ units := by
  have hb : (0 : ℚ) < (tenTo p).2 := by exact_mod_cast (tenTo_pos p).2
  rw [← Nat.cast_le (α := ℚ)]
  push_cast
  rw [tenTo_eq, mul_right_comm, mul_le_mul_iff_left₀ hb]

/-- Where the decimal point of a number of units stands, if `one` of them are one. -/
structure Point10 (units one : Nat) (p : Int) : Prop where
  /-- The number reaches the power of ten below. -/
  low : (10 : ℚ) ^ (p - 1) * one ≤ units
  /-- It does not reach the power of ten itself. -/
  high : (units : ℚ) < 10 ^ p * one
  /-- A double has its point in this range. -/
  range : -330 ≤ p ∧ p ≤ 312

/-- The largest number of a window that has a property, if the last one of it does and the one
before the first does not. -/
theorem find_window {P : Int → Bool} {g : Int} (hlast : P (g - 2) = true)
    (hfirst : P (g + 4) = false) :
    ∃ p, [g + 3, g + 2, g + 1, g, g - 1, g - 2].find? P = some p ∧ P p = true ∧
      P (p + 1) = false ∧ g - 2 ≤ p ∧ p ≤ g + 3 := by
  by_cases h3 : P (g + 3)
  · exact ⟨g + 3, by simp [h3], h3, by rw [add_assoc]; exact hfirst, by omega, by omega⟩
  by_cases h2 : P (g + 2)
  · exact ⟨g + 2, by simp [h3, h2], h2, by rw [add_assoc]; simpa using h3, by omega, by omega⟩
  by_cases h1 : P (g + 1)
  · exact ⟨g + 1, by simp [h3, h2, h1], h1, by rw [add_assoc]; simpa using h2, by omega, by omega⟩
  by_cases h0 : P g
  · exact ⟨g, by simp [h3, h2, h1, h0], h0, by simpa using h1, by omega, by omega⟩
  by_cases hm : P (g - 1)
  · exact ⟨g - 1, by simp [h3, h2, h1, h0, hm], hm, by simpa using h0, by omega, by omega⟩
  · exact ⟨g - 2, by simp [h3, h2, h1, h0, hm, hlast], hlast,
      by rw [show g - 2 + 1 = g - 1 by omega]; simpa using hm, by omega, by omega⟩

/-- **The decimal point is found**: the estimate from the numbers of bits is never so far off that
the window misses it. -/
theorem decimalPoint_spec {units one k : Nat} (hk : k = 1074) (hone : one = 2 ^ k)
    (hpos : 0 < units) (hlen : bitLength units ≤ 2098) :
    Point10 units one (decimalPoint units one) := by
  obtain ⟨hlo, hhi⟩ := units_bounds (k := k) hpos
  rw [← hone] at hlo hhi
  have hlen1 : bitLength one = k + 1 := by
    rw [hone]
    exact bitLength_eq le_rfl (Nat.pow_lt_pow_right (by omega) (by omega))
  have hunit : (0 : ℚ) < one := by rw [hone]; positivity
  have hbl : 0 < bitLength units := lt_bitLength_iff.mpr hpos
  unfold decimalPoint
  rw [hlen1]
  simp only
  generalize hg : ((bitLength units : Int) - (k + 1 : Nat)) * 30103 / 100000 = g
  set P : Int → Bool := fun p =>
    decide ((tenTo (p - 1)).1 * one ≤ units * (tenTo (p - 1)).2) with hP
  have hPiff : ∀ p, P p = true ↔ (10 : ℚ) ^ (p - 1) * one ≤ units := by
    intro p
    rw [hP]
    simp only [decide_eq_true_eq]
    exact reaches_iff units one (p - 1)
  have hlast : P (g - 2) = true := by
    rw [hPiff]
    refine le_trans (mul_le_mul_of_nonneg_right ?_ hunit.le) hlo
    rw [← inv_le_inv₀ (by positivity) (by positivity), ← zpow_neg, ← zpow_neg]
    exact two_zpow_le_ten_zpow (by omega)
  have hfirst : P (g + 4) = false := by
    rw [← Bool.not_eq_true, hPiff, not_le]
    refine lt_of_lt_of_le hhi (mul_le_mul_of_nonneg_right ?_ hunit.le)
    exact two_zpow_le_ten_zpow (by omega)
  obtain ⟨p, hp, hPp, hPs, hpl, hph⟩ := find_window hlast hfirst
  rw [hp]
  simp only
  refine ⟨(hPiff p).mp hPp, ?_, by omega, by omega⟩
  rw [← Bool.not_eq_true, hPiff, not_le, add_sub_cancel_right] at hPs
  exact hPs

/-! ### Digits inside of the reading interval -/

/-- Both halves of the reading interval are at least `units / 2 ^ 53` half units wide. Below a power
of two the doubles are twice as close. -/
theorem readingInterval_wide {units : Nat} (hu : Exact units) (hpos : 0 < units) :
    ∃ w, units ≤ 2 ^ 53 * w ∧ (readingInterval units).1 + w = 2 * units ∧
      2 * units + w ≤ (readingInterval units).2.1 := by
  have hbl : units < 2 ^ bitLength units := lt_two_pow_bitLength units
  have hstep : 2 ^ (bitLength units - 53) ≤ units := Nat.le_of_dvd hpos hu.dvd
  have htop : units < 2 ^ 53 * 2 ^ (bitLength units - 53) := by
    refine lt_of_lt_of_le hbl ?_
    rw [← Nat.pow_add]
    exact Nat.pow_le_pow_right (by omega) (by omega)
  unfold readingInterval
  simp only [Nat.pow_eq, Bool.and_eq_true, decide_eq_true_eq]
  generalize bitLength units - 53 = shift at *
  by_cases hlow : units = 2 ^ (52 + shift) ∧ 0 < shift
  · have hhalf : 2 ^ shift = 2 * (2 ^ shift / 2) := by
      obtain ⟨k, rfl⟩ : ∃ k, shift = k + 1 := ⟨shift - 1, by omega⟩
      rw [Nat.pow_succ]
      omega
    have hunits : units = 2 ^ 52 * 2 ^ shift := by rw [← Nat.pow_add]; exact hlow.1
    refine ⟨2 ^ shift / 2, ?_, ?_, ?_⟩
    · omega
    · rw [if_pos hlow]; omega
    · omega
  · refine ⟨2 ^ shift, htop.le, ?_, le_rfl⟩
    rw [if_neg hlow]
    omega

/-- The quotient alone matters. -/
theorem InInterval.of_ratio {units num den num' den' : Nat} (h : InInterval units num den)
    (hden : 0 < den') (heq : num * den' = num' * den) : InInterval units num' den' := by
  obtain ⟨hpos, hlow, hhigh, hinside⟩ := h
  have h2 : 2 * num * den' = 2 * num' * den := by rw [Nat.mul_assoc, heq, Nat.mul_assoc]
  have hswap : ∀ c, c * den * den' = c * den' * den := fun c => Nat.mul_right_comm c den den'
  refine ⟨hden, ?_, ?_, fun hopen => ⟨?_, ?_⟩⟩
  · refine Nat.le_of_mul_le_mul_right ?_ hpos
    rw [← h2, ← hswap]
    exact Nat.mul_le_mul_right _ hlow
  · refine Nat.le_of_mul_le_mul_right ?_ hpos
    rw [← h2, ← hswap]
    exact Nat.mul_le_mul_right _ hhigh
  · refine Nat.lt_of_mul_lt_mul_right (a := den) ?_
    rw [← h2, ← hswap]
    exact Nat.mul_lt_mul_of_pos_right (hinside hopen).1 hden
  · refine Nat.lt_of_mul_lt_mul_right (a := den) ?_
    rw [← h2, ← hswap]
    exact Nat.mul_lt_mul_of_pos_right (hinside hopen).2 hden

/-- The digits that are tried are the two neighbours of the number on the grid. -/
theorem digitsAt_some {units count d : Nat} {point : Int}
    (h : digitsAt units point count = some d) :
    InInterval units (d * ((tenTo (point - count)).1 * unitsOfOne)) (tenTo (point - count)).2 ∧
      (d = units * (tenTo (point - count)).2 / ((tenTo (point - count)).1 * unitsOfOne) ∨
        d = units * (tenTo (point - count)).2 / ((tenTo (point - count)).1 * unitsOfOne) + 1) := by
  have hpos := (tenTo_pos (point - count)).2
  unfold digitsAt at h
  simp only at h
  generalize unitsOfOne = one at *
  generalize (tenTo (point - count)).1 = a at *
  generalize (tenTo (point - count)).2 = b at *
  split at h
  · rename_i hin
    obtain rfl := Option.some.inj h
    exact ⟨(readsAs_iff hpos).mp hin, roundDiv_cases (units * b) (a * one)⟩
  · generalize hother : (if roundDiv (units * b) (a * one) = units * b / (a * one)
      then units * b / (a * one) + 1 else units * b / (a * one)) = other at h
    split at h
    · rename_i hin
      obtain rfl := Option.some.inj h
      refine ⟨(readsAs_iff hpos).mp hin, ?_⟩
      split at hother
      · exact .inr hother.symm
      · exact .inl hother.symm
    · exact absurd h (by simp)

/-- A grid that is finer than half of the reading interval has a point in it: the nearest one. -/
theorem readsAs_nearest {units num den b w : Nat} (hden : 0 < den) (hb : 0 < b)
    (hfine : den < w * b) (hlow : (readingInterval units).1 + w = 2 * units)
    (hhigh : 2 * units + w ≤ (readingInterval units).2.1) (hnum : num = units * b) :
    readsAs units (roundDiv num den * den) b = true := by
  have hnear := roundDiv_near num hden
  have hlowb : (readingInterval units).1 * b + w * b = 2 * (units * b) := by
    rw [← Nat.add_mul, hlow, Nat.mul_assoc]
  have hhighb : 2 * (units * b) + w * b ≤ (readingInterval units).2.1 * b := by
    rw [← Nat.mul_assoc, ← Nat.add_mul]
    exact Nat.mul_le_mul_right _ hhigh
  subst hnum
  exact (readsAs_iff hb).mpr ⟨hb, by omega, by omega, fun _ => ⟨by omega, by omega⟩⟩

/-- Seventeen digits are always enough. The number is at least `10 ^ 16` steps of their grid, so
half of the interval is more than one. -/
theorem digitsAt_seventeen {units count : Nat} {p : Int} (hcount : count = 17) (hu : Exact units)
    (hpos : 0 < units) (hp : Point10 units unitsOfOne p) :
    ∃ d, digitsAt units p count = some d := by
  obtain ⟨w, hw, hlow, hhigh⟩ := readingInterval_wide hu hpos
  obtain ⟨ha, hb⟩ := tenTo_pos (p - count)
  have hden : 0 < (tenTo (p - count)).1 * unitsOfOne := Nat.mul_pos ha unitsOfOne_pos
  have hgrid : 10 ^ 16 * ((tenTo (p - count)).1 * unitsOfOne) ≤ units * (tenTo (p - count)).2 := by
    have h10 : (10 : ℚ) ^ (p - 1) = 10 ^ 16 * 10 ^ (p - count) := by
      rw [← zpow_natCast, ← zpow_add₀ (by norm_num)]
      congr 1
      push_cast
      omega
    have hmul := mul_le_mul_of_nonneg_right hp.low (Nat.cast_nonneg (α := ℚ) (tenTo (p - count)).2)
    rw [h10] at hmul
    rw [← Nat.cast_le (α := ℚ)]
    push_cast
    rw [tenTo_eq]
    linarith
  have hfine : (tenTo (p - count)).1 * unitsOfOne < w * (tenTo (p - count)).2 := by
    have h1 : units * (tenTo (p - count)).2 ≤ 2 ^ 53 * (w * (tenTo (p - count)).2) := by
      rw [← Nat.mul_assoc]
      exact Nat.mul_le_mul_right _ hw
    have h2 : 0 < w * (tenTo (p - count)).2 := Nat.mul_pos (by omega) hb
    generalize (tenTo (p - count)).1 * unitsOfOne = den at *
    omega
  have hreads := readsAs_nearest hden hb hfine hlow hhigh rfl
  unfold digitsAt
  simp only [hreads, if_true]
  exact ⟨_, rfl⟩

/-! ### The result -/

/-- What is asked of the digits of a number of units, `one` of which are one: exactly `count` of
them, at most 17, and a number that reads back. -/
structure Digits.Fit (units one : Nat) (d : Digits) : Prop where
  count_pos : 1 ≤ d.count
  count_le : d.count ≤ 17
  /-- The first digit is not zero. -/
  low : 10 ^ (d.count - 1) ≤ d.digits
  /-- There are no more digits than are counted. -/
  high : d.digits < 10 ^ d.count
  /-- The point stands where a double has it, or one place behind that. -/
  range : -330 ≤ d.point ∧ d.point ≤ 313
  /-- The number reads back. -/
  reads : InInterval units (d.digits * ((tenTo (d.point - d.count)).1 * one))
    (tenTo (d.point - d.count)).2

/-- The number of digits on a grid, from the place of the decimal point. -/
theorem grid_bounds {units one count : Nat} {p : Int} (hone : 0 < one) (hp : Point10 units one p)
    (hcount : 1 ≤ count) :
    10 ^ (count - 1) ≤ units * (tenTo (p - count)).2 / ((tenTo (p - count)).1 * one) ∧
      units * (tenTo (p - count)).2 / ((tenTo (p - count)).1 * one) < 10 ^ count := by
  obtain ⟨ha, hb⟩ := tenTo_pos (p - count)
  have hbq : (0 : ℚ) < (tenTo (p - count)).2 := by exact_mod_cast hb
  have hden : 0 < (tenTo (p - count)).1 * one := Nat.mul_pos ha hone
  have hscale : ∀ k : Nat, (10 : ℚ) ^ k * (10 ^ (p - count) * (tenTo (p - count)).2 * one)
      = 10 ^ (p - count + k) * one * (tenTo (p - count)).2 := by
    intro k
    rw [zpow_add₀ (by norm_num), zpow_natCast]
    ring
  rw [Nat.le_div_iff_mul_le hden, Nat.div_lt_iff_lt_mul hden]
  constructor
  · rw [← Nat.cast_le (α := ℚ)]
    push_cast
    rw [tenTo_eq, hscale, show p - count + ((count - 1 : Nat) : Int) = p - 1 by omega]
    exact mul_le_mul_of_nonneg_right hp.low hbq.le
  · rw [← Nat.cast_lt (α := ℚ)]
    push_cast
    rw [tenTo_eq, hscale, show p - count + (count : Int) = p by omega]
    exact mul_lt_mul_of_pos_right hp.high hbq

/-- A carry into one more digit is the power of ten itself. -/
theorem fit_of_carry {units one count : Nat} {p : Int} (hrange : -330 ≤ p ∧ p ≤ 312)
    (h : InInterval units (10 ^ count * ((tenTo (p - count)).1 * one)) (tenTo (p - count)).2) :
    Digits.Fit units one ⟨1, 1, p + 1⟩ := by
  refine ⟨le_rfl, by simp, by simp, by simp, by simp only; omega, ?_⟩
  refine h.of_ratio (tenTo_pos _).2 ?_
  have hten : (10 : ℚ) ^ (p + 1 - (1 : Nat)) = 10 ^ count * 10 ^ (p - count) := by
    rw [← zpow_natCast, ← zpow_add₀ (by norm_num)]
    congr 1
    omega
  rw [← Nat.cast_inj (R := ℚ)]
  push_cast at hten ⊢
  rw [tenTo_eq, tenTo_eq, hten]
  ring

/-- The digits that are found were tried with success. -/
theorem fewestDigits_some {units d count : Nat} {p : Int}
    (h : fewestDigits units p = some (d, count)) :
    digitsAt units p count = some d ∧ 1 ≤ count ∧ count ≤ 17 := by
  obtain ⟨k, hk, hd⟩ := List.exists_of_findSome?_eq_some h
  obtain ⟨d', hd', heq⟩ := Option.map_eq_some_iff.mp hd
  obtain ⟨rfl, rfl⟩ := Prod.mk.inj heq
  rw [List.mem_range] at hk
  exact ⟨hd', by omega, by omega⟩

theorem fewestDigits_ne_none {units : Nat} {p : Int} (hu : Exact units) (hpos : 0 < units)
    (hp : Point10 units unitsOfOne p) : fewestDigits units p ≠ none := by
  intro hnone
  have hseventeen : ∃ d, digitsAt units p (16 + 1) = some d := digitsAt_seventeen rfl hu hpos hp
  obtain ⟨d, hd⟩ := hseventeen
  have := List.findSome?_eq_none_iff.mp hnone 16 (by simp)
  rw [hd] at this
  exact absurd this (by simp)

theorem ofFound_fit {units one d count : Nat} {p : Int} (hp : Point10 units one p)
    (hone : 0 < one) (hcount : 1 ≤ count ∧ count ≤ 17)
    (hreads : InInterval units (d * ((tenTo (p - count)).1 * one)) (tenTo (p - count)).2)
    (hdown : d = units * (tenTo (p - count)).2 / ((tenTo (p - count)).1 * one) ∨
      d = units * (tenTo (p - count)).2 / ((tenTo (p - count)).1 * one) + 1) :
    (Digits.ofFound p (some (d, count))).Fit units one := by
  obtain ⟨hlow, hhigh⟩ := grid_bounds hone hp hcount.1
  have hrange := hp.range
  rw [Digits.ofFound, Nat.pow_eq]
  split
  · rename_i hcarry
    rw [hcarry] at hreads
    exact fit_of_carry hrange hreads
  · exact ⟨hcount.1, hcount.2, by simp only; omega, by simp only; omega, by simp only; omega,
      hreads⟩

/-- **The shortest digits fit** for every positive number of units of a double. -/
theorem shortest_fit {units : Nat} (hu : Exact units) (hpos : 0 < units) :
    (shortest units).Fit units unitsOfOne := by
  obtain ⟨k, hk, hone⟩ := unitsOfOne_eq
  have hp : Point10 units unitsOfOne (decimalPoint units unitsOfOne) :=
    decimalPoint_spec hk hone hpos hu.lt
  have hne := fewestDigits_ne_none hu hpos hp
  unfold shortest
  cases hfound : fewestDigits units (decimalPoint units unitsOfOne) with
  | none => exact absurd hfound hne
  | some r =>
    obtain ⟨d, count⟩ := r
    obtain ⟨hd, hcount⟩ := fewestDigits_some hfound
    obtain ⟨hreads, hdown⟩ := digitsAt_some hd
    simp only [hfound]
    exact ofFound_fit hp unitsOfOne_pos hcount hreads hdown

end Binary64

end Reckoner
