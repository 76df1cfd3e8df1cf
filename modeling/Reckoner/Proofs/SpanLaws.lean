import Reckoner.Proofs.Broadcast
import Reckoner.Proofs.ExactIntegers
import Reckoner.Proofs.ReadableTimes

/-!
# Points in time and spans

A span moves a point in time by its nanoseconds, forward or backward, and the difference of two
points is the span between them. What has been moved by a span and is compared with where it was
gives the span again, whatever the span is.

Moving back is another matter. It adds the span with the other sign, and the smallest span has
none: its negative wraps around to itself, so that moving back goes on in the same direction. Nor
is the sum of two spans checked, so that moving by a sum that wraps around is not moving by one
span and then by the other. These are the only exceptions.
-/

namespace Reckoner

namespace DateTime

variable {t u d : DateTime} {k : Nat}

/-! ### Instants -/

/-- The nanoseconds from the start of year 1. -/
def instant (t : DateTime) : Int := t.seconds * 10 ^ 9 + t.nanos

theorem same_iff (ht : t.nanos < 10 ^ 9) (hu : u.nanos < 10 ^ 9) :
    t.same u = true ↔ t.instant = u.instant := by
  unfold same instant
  simp only [Bool.and_eq_true, decide_eq_true_eq]
  omega

/-- A point in time that `k` spans can lead to from a year of four digits. -/
structure Near (k : Nat) (t : DateTime) : Prop where
  nanos_lt : t.nanos < 10 ^ 9
  /-- The seconds are not further from zero than the year and the spans allow. -/
  seconds_lt : t.seconds.natAbs < 2 ^ 62 + 2 ^ 40 + k * 2 ^ 34

/-- In a zone that is less than `2 ^ 62` seconds from universal time, the seconds of a year of four
digits are far from where they would wrap around. The local time is too near to the bounds for
having wrapped around more than once. -/
theorem Timely.near (h : d.Timely) (hzone : d.zone.seconds.natAbs < 2 ^ 62) : Near 0 d := by
  have hyear := h.year_range
  have hseconds := h.seconds_range
  unfold civil at hyear
  simp only [Int.fdiv_eq_ediv_of_nonneg _ (show (0 : Int) ≤ 86400 by omega), epochShift,
    Nat.pow_eq] at hyear
  obtain ⟨hlo, hhi⟩ := Date.dayNumber_range hyear.1 hyear.2
  norm_num at hlo hhi hseconds hzone
  have hwraps : (d.seconds + d.zone.seconds + 9223371966579724800) / 18446744073709551616 = -1 ∨
      (d.seconds + d.zone.seconds + 9223371966579724800) / 18446744073709551616 = 0 ∨
      (d.seconds + d.zone.seconds + 9223371966579724800) / 18446744073709551616 = 1 := by
    omega
  refine ⟨h.nanos_lt, ?_⟩
  norm_num
  rcases hwraps with hwraps | hwraps | hwraps <;> omega

/-- Far from the bounds of 64 bits, seconds are what they are. -/
theorem clampSeconds_eq {s : Int} (hs : s.natAbs < 2 ^ 63) : clampSeconds s = s := by
  unfold clampSeconds
  simp only [Nat.pow_eq]
  rw [if_neg (by push_cast; omega), if_neg (by push_cast; omega)]

/-- **A span moves an instant by its nanoseconds.** -/
theorem Near.instant_add (h : Near k t) (hk : k ≤ 2) (a : Int64) :
    (t.add a).instant = t.instant + a.toInt := by
  have hseconds := h.seconds_lt
  have hnanos := h.nanos_lt
  have hlo := a.le_toInt
  have hhi := a.toInt_lt
  have hparts := Int.mul_tdiv_add_tmod a.toInt 1000000000
  have hlow : -1000000000 < a.toInt.tmod 1000000000 := Int.lt_tmod_of_pos _ (by omega)
  have hhigh : a.toInt.tmod 1000000000 < 1000000000 := Int.tmod_lt_of_pos _ (by omega)
  unfold DateTime.add instant
  simp only
  split
  · rw [clampSeconds_eq (by omega)]
    omega
  · split
    · rw [clampSeconds_eq (by omega)]
      omega
    · rw [clampSeconds_eq (by omega)]
      omega

theorem Near.add (h : Near k t) (hk : k ≤ 2) (a : Int64) : Near (k + 1) (t.add a) := by
  have hinstant := h.instant_add hk a
  have hnanos := nanos_add_lt h.nanos_lt a
  have hseconds := h.seconds_lt
  have hlt := h.nanos_lt
  have hlo := a.le_toInt
  have hhi := a.toInt_lt
  refine ⟨hnanos, ?_⟩
  unfold instant at hinstant
  omega

/-- The difference of two points in time is the span that is between them. -/
theorem sub_eq {a : Int64} (ht : t.nanos < 10 ^ 9) (hu : Near k u) (hk : k ≤ 2)
    (h : t.instant = u.instant + a.toInt) : t.sub u = a := by
  have hdifference : (t.seconds - u.seconds) * 1000000000 + ((t.nanos : Int) - u.nanos)
      = a.toInt := by
    unfold instant at h
    omega
  have hsame : (u.add a).same t = true := by
    rw [same_iff (hu.add hk a).nanos_lt ht, hu.instant_add hk a, h]
  unfold sub
  simp only [hdifference, Int64.ofInt_toInt, hsame, if_true]

end DateTime

/-! ### Laws of the operators -/

/-- Noon of a leap day. -/
def DateTime.leapNoon : DateTime := .ofCivil ⟨2024, 2, 29⟩ 43200 0 .utc

namespace Operator

open DateTime

variable {names : Names} {d t : DateTime}

/-- A result is a point in time at the instant of `t`. -/
def IsAt (result : Except Error Value) (t : DateTime) : Prop :=
  ∃ u, result = .ok (.dateTime u) ∧ u.same t = true

theorem isAt_dateTime {u : DateTime} : IsAt (.ok (.dateTime u)) t ↔ u.same t = true := by
  constructor
  · rintro ⟨v, hv, hsame⟩
    cases hv
    exact hsame
  · intro h
    exact ⟨u, rfl, h⟩

/-- A span has a negative unless it is the smallest one. -/
theorem toInt_neg_iff (a : Int64) : (-a).toInt = -a.toInt ↔ a ≠ Int64.minValue := by
  have hlo := a.le_toInt
  have hhi := a.toInt_lt
  have hcases := Integer.bmod_cases (n := -a.toInt) (by omega)
  rw [← Int64.toInt_neg] at hcases
  rw [ne_eq, ← Int64.toInt_inj, Int64.toInt_minValue]
  omega

/-- **Spans move points in time.** A point that has been moved is a span away from where it was,
and the order of the operands does not matter. Moving back ends where it began unless the span
is the smallest one; and moving by the sum of two spans is moving by one and then by the other
if and only if the sum has 64 bits. -/
theorem spans_move (names : Names) (hd : d.Timely) (hzone : d.zone.seconds.natAbs < 2 ^ 62)
    (a b : Int64) :
    (IsAt (do minus.outcome names (← plus.outcome names (.dateTime d) (.timeSpan a)) (.timeSpan a))
      d ↔ a ≠ Int64.minValue) ∧
    (IsAt (do plus.outcome names (← minus.outcome names (.dateTime d) (.timeSpan a)) (.timeSpan a))
      d ↔ a ≠ Int64.minValue) ∧
    (do minus.outcome names (← plus.outcome names (.dateTime d) (.timeSpan a)) (.dateTime d))
      = .ok (.timeSpan a) ∧
    (∃ t, plus.outcome names (.dateTime d) (.timeSpan a) = .ok (.dateTime t) ∧
      t.instant = d.instant + a.toInt ∧
      IsAt (plus.outcome names (.timeSpan a) (.dateTime d)) t) ∧
    ∃ c t, plus.outcome names (.timeSpan a) (.timeSpan b) = .ok (.timeSpan c) ∧
      plus.outcome names (.dateTime d) (.timeSpan c) = .ok (.dateTime t) ∧
      (IsAt (do plus.outcome names (← plus.outcome names (.dateTime d) (.timeSpan a)) (.timeSpan b))
        t ↔ -2 ^ 63 ≤ a.toInt + b.toInt ∧ a.toInt + b.toInt < 2 ^ 63) := by
  have hnear := hd.near hzone
  have hadd : ∀ s, Near 1 (d.add s) := fun s => hnear.add (by omega) s
  have hinstant : ∀ s, (d.add s).instant = d.instant + s.toInt := hnear.instant_add (by omega)
  have htwice : ∀ s s', ((d.add s).add s').instant = d.instant + s.toInt + s'.toInt := by
    intro s s'
    rw [(hadd s).instant_add (by omega), hinstant]
  have hnanos : ∀ s s', ((d.add s).add s').nanos < 10 ^ 9 :=
    fun s s' => ((hadd s).add (by omega) s').nanos_lt
  have hneg := toInt_neg_iff a
  refine ⟨?_, ?_, ?_, ⟨d.add a, rfl, hinstant a, d.add a, rfl, ?_⟩,
    a + b, d.add (a + b), rfl, rfl, ?_⟩
  · show IsAt (.ok (.dateTime ((d.add a).add (-a)))) d ↔ _
    rw [isAt_dateTime, same_iff (hnanos _ _) hd.nanos_lt, htwice, ← hneg]
    omega
  · show IsAt (.ok (.dateTime ((d.add (-a)).add a))) d ↔ _
    rw [isAt_dateTime, same_iff (hnanos _ _) hd.nanos_lt, htwice, ← hneg]
    omega
  · show Except.ok (Value.timeSpan ((d.add a).sub d)) = _
    rw [sub_eq (hadd a).nanos_lt hnear (by omega) (hinstant a)]
  · rw [same_iff (hadd a).nanos_lt (hadd a).nanos_lt]
  · show IsAt (.ok (.dateTime ((d.add a).add b))) _ ↔ _
    have hcases := Integer.bmod_cases (n := a.toInt + b.toInt)
    rw [← Int64.toInt_add] at hcases
    rw [isAt_dateTime, same_iff (hnanos _ _) (hadd _).nanos_lt, htwice, hinstant]
    have ha := And.intro a.le_toInt a.toInt_lt
    have hb := And.intro b.le_toInt b.toInt_lt
    omega

/-- An hour after noon, and back again. -/
theorem hour_undone : leapNoon.Timely ∧ leapNoon.zone.seconds.natAbs < 2 ^ 62 ∧
    IsAt (do
      minus.outcome (fun _ => []) (← plus.outcome (fun _ => []) (.dateTime leapNoon)
        (.timeSpan 3600000000000)) (.timeSpan 3600000000000)) leapNoon := by
  have htimely : leapNoon.Timely := ⟨by decide, by decide, by decide +kernel⟩
  exact ⟨htimely, by decide,
    (spans_move (fun _ => []) htimely (by decide) 3600000000000 0).1.mpr (by decide)⟩

/-- Noon less the smallest span, plus the same span, is more than five centuries before noon. And
two largest spans add up to two nanoseconds less than nothing. -/
theorem smallestSpan_not_undone :
    leapNoon.Timely ∧
    ¬ IsAt (do
      plus.outcome (fun _ => []) (← minus.outcome (fun _ => []) (.dateTime leapNoon)
        (.timeSpan Int64.minValue)) (.timeSpan Int64.minValue)) leapNoon ∧
    plus.outcome (fun _ => []) (.timeSpan Int64.maxValue) (.timeSpan Int64.maxValue) =
      .ok (.timeSpan (-2)) ∧
    ¬ IsAt (do
      plus.outcome (fun _ => []) (← plus.outcome (fun _ => []) (.dateTime leapNoon)
        (.timeSpan Int64.maxValue)) (.timeSpan Int64.maxValue)) (leapNoon.add (-2)) := by
  refine ⟨⟨by decide, by decide, by decide +kernel⟩, ?_, rfl, ?_⟩
  · exact isAt_dateTime.not.mpr (by decide)
  · exact isAt_dateTime.not.mpr (by decide)

end Operator

end Reckoner
