import Mathlib.Tactic
import Reckoner.Number.Decimal

/-!
# Rounding to doubles

Every finite double is an exact number of units with at most 53 significant bits, and is packed
again from them. `readingInterval` is what it says: every quotient between its bounds is rounded
to the double in the middle.
-/

namespace Reckoner

/-! ### Numbers of bits -/

theorem bitLength_le_iff {n k : Nat} : bitLength n ≤ k ↔ n < 2 ^ k := by
  unfold bitLength
  split
  · subst n; simp
  · rename_i h
    rw [← Nat.log2_lt h, Nat.lt_iff_add_one_le]

theorem lt_bitLength_iff {n k : Nat} : k < bitLength n ↔ 2 ^ k ≤ n := by
  rw [← not_le, bitLength_le_iff, not_lt]

theorem bitLength_eq {n k : Nat} (hlo : 2 ^ k ≤ n) (hhi : n < 2 ^ (k + 1)) :
    bitLength n = k + 1 := by
  have h1 := bitLength_le_iff.mpr hhi
  have h2 := lt_bitLength_iff.mpr hlo
  omega

theorem lt_two_pow_bitLength (n : Nat) : n < 2 ^ bitLength n := bitLength_le_iff.mp le_rfl

/-! ### The nearest integer -/

/-- A quotient within one half of `m` is rounded to it, at a distance of exactly one half if `m` is
even. Rounded down, it is `m` or the number before. -/
theorem roundDiv_eq {num den m : Nat} (hlo : 2 * (m * den) ≤ 2 * num + den)
    (hhi : 2 * num ≤ 2 * (m * den) + den)
    (hodd : m % 2 = 1 → 2 * (m * den) < 2 * num + den ∧ 2 * num < 2 * (m * den) + den)
    (hden : 0 < den) : roundDiv num den = m := by
  have hq : den * (num / den) + num % den = num := Nat.div_add_mod num den
  have hr : num % den < den := Nat.mod_lt _ hden
  set q := num / den with hqdef
  set r := num % den with hrdef
  have hcomm : den * q = q * den := Nat.mul_comm den q
  have hcase : q = m ∨ q + 1 = m := by
    have h1 : q * den < (m + 1) * den := by rw [Nat.add_mul]; omega
    have h2 : m * den < (q + 2) * den := by rw [Nat.add_mul]; omega
    have h3 := Nat.lt_of_mul_lt_mul_right h1
    have h4 := Nat.lt_of_mul_lt_mul_right h2
    omega
  unfold roundDiv
  simp only [← hqdef, ← hrdef]
  rcases hcase with h | h
  · subst m
    by_cases heven : q % 2 = 0
    · rw [if_neg (by omega : ¬ den < 2 * r), if_pos heven, ite_self]
    · rw [if_pos (by have := hodd (by omega); omega)]
  · subst m
    have hmul : (q + 1) * den = q * den + den := by rw [Nat.add_mul, Nat.one_mul]
    rw [hmul] at hlo hhi hodd
    rw [if_neg (by omega)]
    by_cases heven : (q + 1) % 2 = 0
    · rw [if_neg (by omega : ¬ q % 2 = 0), ite_self]
    · rw [if_pos (by have := hodd (by omega); omega)]

/-- Rounding moves a quotient by at most one half. -/
theorem roundDiv_near (num : Nat) {den : Nat} (hden : 0 < den) :
    2 * num ≤ 2 * (roundDiv num den * den) + den ∧
      2 * (roundDiv num den * den) ≤ 2 * num + den := by
  have hq : den * (num / den) + num % den = num := Nat.div_add_mod num den
  have hcomm : den * (num / den) = num / den * den := Nat.mul_comm _ _
  have hsucc : (num / den + 1) * den = num / den * den + den := by ring
  unfold roundDiv
  simp only
  split
  · omega
  · split
    · have := Nat.mod_lt num hden
      rw [hsucc]; omega
    · split
      · omega
      · rw [hsucc]; omega

/-- Rounding goes to the number below or the number above. -/
theorem roundDiv_cases (num den : Nat) :
    roundDiv num den = num / den ∨ roundDiv num den = num / den + 1 := by
  unfold roundDiv
  simp only
  split_ifs <;> simp

namespace Binary64

/-! ### Units of a double -/

/-- A number of units that a double can have: at most 53 significant bits, and below the
infinities. -/
structure Exact (units : Nat) : Prop where
  /-- There are at most 53 significant bits. -/
  dvd : 2 ^ (bitLength units - 53) ∣ units
  /-- The number is below the infinities. -/
  lt : bitLength units ≤ 2098

theorem bits_lt (x : Binary64) : x.bits.toNat < 2 ^ 64 := x.bits.toNat_lt

theorem bitLength_scaled {m k : Nat} (hlo : 2 ^ 52 ≤ m) (hhi : m < 2 ^ 53) :
    bitLength (m * 2 ^ k) = 53 + k := by
  have h1 : 2 ^ (52 + k) ≤ m * 2 ^ k := by
    rw [Nat.pow_add]; exact Nat.mul_le_mul_right _ hlo
  have h2 : m * 2 ^ k < 2 ^ (52 + k + 1) := by
    rw [show 52 + k + 1 = 53 + k by omega, Nat.pow_add]
    exact Nat.mul_lt_mul_of_pos_right hhi (by positivity)
  rw [bitLength_eq h1 h2]; omega

/-- The parts of a word: its sign, its exponent and its fraction. -/
theorem bits_parts (x : Binary64) :
    x.bits.toNat = (if x.isNegative then 2 ^ 63 else 0)
      + x.bits.toNat / 2 ^ 52 % 2048 * 2 ^ 52 + x.bits.toNat % 2 ^ 52 := by
  have h := x.bits_lt
  unfold isNegative
  simp only [Nat.pow_eq, decide_eq_true_eq]
  split <;> omega

theorem ofSign_eq {x : Binary64} {magnitude : Nat}
    (h : x.bits.toNat = (if x.isNegative then 2 ^ 63 else 0) + magnitude) :
    ofSign x.isNegative magnitude = x := by
  unfold ofSign
  simp only [Nat.pow_eq, ← h, Nat.toUInt64, UInt64.ofNat_toNat]

theorem pack_small {x : Binary64} {units : Nat} (hlt : units < 2 ^ 53)
    (h : x.bits.toNat = (if x.isNegative then 2 ^ 63 else 0) + units) :
    pack x.isNegative units = x := by
  rw [pack, Nat.pow_eq, if_pos hlt]
  exact ofSign_eq h

/-- A normal double is packed again from its units. Its smallest exponent is that of the subnormal
ones, too. -/
theorem pack_normal {x : Binary64} {expo frac : Nat} (hpos : 1 ≤ expo) (hfin : expo < 2047)
    (hfrac : frac < 2 ^ 52)
    (h : x.bits.toNat = (if x.isNegative then 2 ^ 63 else 0) + expo * 2 ^ 52 + frac) :
    pack x.isNegative ((2 ^ 52 + frac) * 2 ^ (expo - 1)) = x := by
  have hlen : bitLength ((2 ^ 52 + frac) * 2 ^ (expo - 1)) = 53 + (expo - 1) :=
    bitLength_scaled (by omega) (by omega)
  by_cases hone : expo = 1
  · subst hone
    rw [Nat.sub_self, Nat.pow_zero, Nat.mul_one]
    exact pack_small (by omega) (by omega)
  · have hbig : ¬ (2 ^ 52 + frac) * 2 ^ (expo - 1) < 2 ^ 53 := by
      rw [← bitLength_le_iff, hlen]
      omega
    unfold pack
    simp only [Nat.pow_eq, hlen, Nat.add_sub_cancel_left, hbig, if_false]
    rw [if_neg (by omega), Nat.mul_div_cancel _ (by positivity)]
    refine ofSign_eq ?_
    rw [h, show expo - 1 + 1 = expo by omega]
    omega

/-- The number of units of a double can be a double's, and it is that double's. -/
theorem pack_of_classify {x : Binary64} {negative : Bool} {units : Nat}
    (h : x.classify = .finite negative units) : Exact units ∧ pack negative units = x := by
  have hparts := x.bits_parts
  have hfrac : x.bits.toNat % 2 ^ 52 < 2 ^ 52 := Nat.mod_lt _ (by positivity)
  have hexpo : x.bits.toNat / 2 ^ 52 % 2048 < 2048 := Nat.mod_lt _ (by omega)
  unfold classify at h
  simp only [Nat.pow_eq] at h
  generalize x.bits.toNat % 2 ^ 52 = frac at *
  generalize x.bits.toNat / 2 ^ 52 % 2048 = expo at *
  split at h
  · split at h <;> simp at h
  · split at h
    · rename_i _ h0
      simp only [Class.finite.injEq] at h
      obtain ⟨rfl, rfl⟩ := h
      have hlen : bitLength frac ≤ 52 := bitLength_le_iff.mpr hfrac
      refine ⟨⟨by rw [show bitLength frac - 53 = 0 by omega]; simp, by omega⟩, ?_⟩
      exact pack_small (by omega) (by rw [hparts, h0]; omega)
    · rename_i hinf h0
      simp only [Class.finite.injEq] at h
      obtain ⟨rfl, rfl⟩ := h
      have hlen : bitLength ((2 ^ 52 + frac) * 2 ^ (expo - 1)) = 53 + (expo - 1) :=
        bitLength_scaled (by omega) (by omega)
      refine ⟨⟨by rw [hlen, Nat.add_sub_cancel_left]; exact dvd_mul_left _ _, by omega⟩, ?_⟩
      exact pack_normal (by omega) (by omega) hfrac hparts

/-! ### The reading interval -/

/-- A quotient of natural numbers between the bounds of the reading interval. -/
structure InInterval (units num den : Nat) : Prop where
  den_pos : 0 < den
  low : (readingInterval units).1 * den ≤ 2 * num
  high : 2 * num ≤ (readingInterval units).2.1 * den
  /-- It is strictly between bounds that do not read back themselves. -/
  inside : (readingInterval units).2.2 = false →
    (readingInterval units).1 * den < 2 * num ∧ 2 * num < (readingInterval units).2.1 * den

theorem readsAs_iff {units num den : Nat} (hden : 0 < den) :
    readsAs units num den = true ↔ InInterval units num den := by
  unfold readsAs
  simp only
  constructor
  · intro h
    split at h
    · rename_i hclosed
      simp only [Bool.and_eq_true, decide_eq_true_eq] at h
      exact ⟨hden, h.1, h.2, fun hopen => absurd hclosed (by simp [hopen])⟩
    · simp only [Bool.and_eq_true, decide_eq_true_eq] at h
      exact ⟨hden, h.1.le, h.2.le, fun _ => h⟩
  · rintro ⟨-, hlow, hhigh, hinside⟩
    split
    · simp [hlow, hhigh]
    · rename_i hopen
      simp [hinside (by simpa using hopen)]

/-- The last step of rounding: the double is packed from `m` steps. -/
theorem roundUnits_eq {num den units shift m : Nat} (negative : Bool)
    (hshift : bitLength (num / den) - 53 = shift) (hm : units = m * 2 ^ shift)
    (hround : roundDiv num (den * 2 ^ shift) = m) :
    roundUnits negative num den = pack negative units := by
  unfold roundUnits
  simp only [Nat.pow_eq, hshift, hround, hm]

theorem readingInterval_low (units : Nat) :
    2 * units - 2 ^ (bitLength units - 53) ≤ (readingInterval units).1 := by
  simp only [readingInterval, Nat.pow_eq]
  split
  · exact Nat.sub_le_sub_left (Nat.div_le_self _ _) _
  · exact le_rfl

variable {units num den : Nat}

/-- A double has as many steps as 53 bits can tell. -/
theorem Exact.steps (hu : Exact units) :
    ∃ m < 2 ^ 53, units = m * 2 ^ (bitLength units - 53) := by
  obtain ⟨m, hm⟩ := hu.dvd
  rw [Nat.mul_comm] at hm
  refine ⟨m, ?_, hm⟩
  by_contra hc
  have hlong : 2 ^ (53 + (bitLength units - 53)) ≤ units := by
    calc 2 ^ (53 + (bitLength units - 53)) = 2 ^ 53 * 2 ^ (bitLength units - 53) := Nat.pow_add ..
      _ ≤ m * 2 ^ (bitLength units - 53) := Nat.mul_le_mul_right _ (not_lt.mp hc)
      _ = units := hm.symm
  have := lt_bitLength_iff.mpr hlong
  omega

namespace InInterval

/-- The interval goes down by one step, -/
theorem low_step (h : InInterval units num den) :
    2 * units * den ≤ 2 * num + 2 ^ (bitLength units - 53) * den := by
  have hlow := le_trans (Nat.mul_le_mul_right den (readingInterval_low units)) h.low
  rw [Nat.sub_mul] at hlow
  omega

/-- and up by one. -/
theorem high_step (h : InInterval units num den) :
    2 * num ≤ 2 * units * den + 2 ^ (bitLength units - 53) * den := by
  rw [← Nat.add_mul]
  exact h.high

/-- If the number of steps is odd, the bounds are outside. -/
theorem inside_of_odd (h : InInterval units num den) {m : Nat}
    (hm : units = m * 2 ^ (bitLength units - 53)) (hodd : m % 2 = 1) :
    2 * units * den < 2 * num + 2 ^ (bitLength units - 53) * den ∧
      2 * num < 2 * units * den + 2 ^ (bitLength units - 53) * den := by
  have hdiv : units / 2 ^ (bitLength units - 53) = m := Nat.div_eq_of_eq_mul_left (by positivity) hm
  obtain ⟨hlow, hhigh⟩ := h.inside (by simp [readingInterval, hdiv, hodd])
  have hlow := lt_of_le_of_lt (Nat.mul_le_mul_right den (readingInterval_low units)) hlow
  rw [Nat.sub_mul] at hlow
  rw [← Nat.add_mul]
  exact ⟨by omega, hhigh⟩

/-- From a power of two, below which the doubles are closer together, the interval goes down by
half a step. -/
theorem low_half (h : InInterval units num den) {k : Nat} (hk : bitLength units - 53 = k + 1)
    (hunits : units = 2 ^ (53 + k)) : 2 * units * den ≤ 2 * num + 2 ^ k * den := by
  have hlow : (2 * units - 2 ^ k) * den ≤ 2 * num := by
    refine le_trans (Nat.mul_le_mul_right _ ?_) h.low
    have hpower : units = 2 ^ (52 + (k + 1)) := by rw [hunits]; congr 1; omega
    simp only [readingInterval, Nat.pow_eq, hk]
    rw [if_pos (by simp [hpower]), Nat.pow_succ, Nat.mul_div_cancel _ (by omega)]
  rw [Nat.sub_mul] at hlow
  omega

/-- The quotient stays below the next power of two. -/
theorem quotient_lt (hu : Exact units) (h : InInterval units num den) :
    num / den < 2 ^ (53 + (bitLength units - 53)) := by
  obtain ⟨m, hm, hunits⟩ := hu.steps
  have hnext : units + 2 ^ (bitLength units - 53) ≤ 2 ^ (53 + (bitLength units - 53)) := by
    calc units + 2 ^ (bitLength units - 53) = (m + 1) * 2 ^ (bitLength units - 53) := by
          rw [Nat.add_mul, Nat.one_mul, ← hunits]
      _ ≤ 2 ^ 53 * 2 ^ (bitLength units - 53) := Nat.mul_le_mul_right _ hm
      _ = 2 ^ (53 + (bitLength units - 53)) := (Nat.pow_add ..).symm
  have hnext := Nat.mul_le_mul_right den hnext
  have hstep : 0 < 2 ^ (bitLength units - 53) * den := Nat.mul_pos (by positivity) h.den_pos
  have hhigh := h.high_step
  rw [Nat.mul_assoc] at hhigh
  rw [Nat.add_mul] at hnext
  refine (Nat.div_lt_iff_lt_mul h.den_pos).mpr ?_
  omega

/-- Only from a power of two the interval goes below the numbers with the exponent of the double.
From any other number the quotient would be more than a step away. -/
theorem units_eq_of_lt (hu : Exact units) (h : InInterval units num den)
    (hshift : 0 < bitLength units - 53) (hbelow : num < 2 ^ (52 + (bitLength units - 53)) * den) :
    units = 2 ^ (52 + (bitLength units - 53)) := by
  obtain ⟨m, -, hunits⟩ := hu.steps
  have hge : 2 ^ (52 + (bitLength units - 53)) ≤ units := lt_bitLength_iff.mp (by omega)
  by_contra hne
  have hm : 2 ^ 52 < m := by
    by_contra hc
    refine hne (le_antisymm ?_ hge)
    calc units = m * 2 ^ (bitLength units - 53) := hunits
      _ ≤ 2 ^ 52 * 2 ^ (bitLength units - 53) := Nat.mul_le_mul_right _ (not_lt.mp hc)
      _ = 2 ^ (52 + (bitLength units - 53)) := (Nat.pow_add ..).symm
  have hmore : 2 ^ (52 + (bitLength units - 53)) + 2 ^ (bitLength units - 53) ≤ units := by
    calc 2 ^ (52 + (bitLength units - 53)) + 2 ^ (bitLength units - 53)
        = (2 ^ 52 + 1) * 2 ^ (bitLength units - 53) := by rw [Nat.pow_add]; ring
      _ ≤ m * 2 ^ (bitLength units - 53) := Nat.mul_le_mul_right _ hm
      _ = units := hunits.symm
  have hmore := Nat.mul_le_mul_right den hmore
  have hlow := h.low_step
  rw [Nat.add_mul] at hmore
  rw [Nat.mul_assoc] at hlow
  omega

end InInterval

/-- A quotient with the exponent of the double is rounded to it. -/
theorem roundUnits_of_exponent (negative : Bool) (hu : Exact units) (h : InInterval units num den)
    (hshift : bitLength (num / den) - 53 = bitLength units - 53) :
    roundUnits negative num den = pack negative units := by
  obtain ⟨m, -, hm⟩ := hu.steps
  have hlow := h.low_step
  have hhigh := h.high_step
  have hodd := h.inside_of_odd hm
  have hden := h.den_pos
  generalize bitLength units - 53 = shift at *
  have hmul : 2 * (m * (den * 2 ^ shift)) = 2 * units * den := by rw [hm]; ring
  refine roundUnits_eq negative hshift hm ?_
  refine roundDiv_eq ?_ ?_ ?_ (by positivity)
  · rwa [hmul, Nat.mul_comm den]
  · rwa [hmul, Nat.mul_comm den]
  · rwa [hmul, Nat.mul_comm den]

/-- So is a quotient just below a double that is a power of two, although its exponent is smaller
than that of the double by one. -/
theorem roundUnits_of_power (negative : Bool) {k : Nat} (hden : 0 < den)
    (hunits : units = 2 ^ (53 + k)) (hlow : 2 * units * den ≤ 2 * num + 2 ^ k * den)
    (hbelow : num < units * den) : roundUnits negative num den = pack negative units := by
  have hquotient : 2 ^ (52 + k) ≤ num / den := by
    rw [Nat.le_div_iff_mul_le hden]
    have hsmall : 2 ^ k * den ≤ 2 ^ (52 + k) * den :=
      Nat.mul_le_mul_right _ (Nat.pow_le_pow_right (by omega) (by omega))
    have hdouble : 2 * units * den = 4 * (2 ^ (52 + k) * den) := by
      rw [hunits, show 53 + k = 52 + k + 1 by omega, Nat.pow_succ]
      ring
    omega
  have hlength : bitLength (num / den) = 52 + k + 1 := by
    refine bitLength_eq hquotient ((Nat.div_lt_iff_lt_mul hden).mpr ?_)
    rwa [show 52 + k + 1 = 53 + k by omega, ← hunits]
  have hmul : 2 * (2 ^ 53 * (den * 2 ^ k)) = 2 * units * den := by
    rw [hunits, Nat.pow_add]
    ring
  have hshift : bitLength (num / den) - 53 = k := by omega
  refine roundUnits_eq negative hshift (by rw [hunits, Nat.pow_add]) ?_
  refine roundDiv_eq ?_ ?_ (fun hodd => absurd hodd (by decide)) (by positivity)
  · rwa [hmul, Nat.mul_comm den]
  · rw [hmul, Nat.mul_assoc]
    omega

/-- **The reading interval is right**: every quotient inside of it is rounded to the double that
has the given number of units. -/
theorem roundUnits_of_inInterval (negative : Bool) (hu : Exact units)
    (h : InInterval units num den) : roundUnits negative num den = pack negative units := by
  by_cases hshift : bitLength (num / den) - 53 = bitLength units - 53
  · exact roundUnits_of_exponent negative hu h hshift
  · have htop := bitLength_le_iff.mpr (h.quotient_lt hu)
    have hbelow : num < 2 ^ (52 + (bitLength units - 53)) * den :=
      (Nat.div_lt_iff_lt_mul h.den_pos).mp (bitLength_le_iff.mp (by omega))
    have hunits := h.units_eq_of_lt hu (by omega) hbelow
    obtain ⟨k, hk⟩ : ∃ k, bitLength units - 53 = k + 1 :=
      Nat.exists_eq_add_one.mpr (by omega)
    have hpower : units = 2 ^ (53 + k) := by
      rw [hunits, hk]
      congr 1
      omega
    refine roundUnits_of_power negative h.den_pos hpower (h.low_half hk hpower) ?_
    rwa [← hunits] at hbelow

end Binary64

end Reckoner
