import Reckoner.Proofs.CheckedIntegers
import Reckoner.Proofs.Widening

/-!
# Collections are exact and bounded

Three operators build collections whose length is a number: an interval, a value replicated and a
string repeated. Each of them decides before it starts whether the length is allowed, and does so
without a sum or a product that could wrap around; then it builds exactly what it is asked for.
Nothing depends on how close the operands are to the ends of their range.
-/

namespace Reckoner

namespace Operator

variable {names : Names} {op : Operator} {l r : Value} {a b : Int64} {items : List Value}

/-! ### Intervals -/

/-- The items are the integers from `a` to `b`, one for each step of one, up or down. -/
structure Counts (a b : Int64) (items : List Value) : Prop where
  /-- There is one more item than there are steps. -/
  length : items.length = (b.toInt - a.toInt).natAbs + 1
  /-- The first item is `a`. -/
  first : items.head? = some (.int a)
  /-- The last item is `b`. -/
  last : items.getLast? = some (.int b)
  /-- An integer is as many steps away from the first one as its place says. -/
  item : ∀ k < items.length, ∃ x : Int64, items[k]? = some (.int x) ∧
    x.toInt = a.toInt + (if a.toInt ≤ b.toInt then 1 else -1) * k

/-- A step of an interval does not leave the range between its ends. -/
theorem toInt_ofInt_step {k : Nat} (hk : k ≤ (b.toInt - a.toInt).natAbs) :
    (Int64.ofInt (a.toInt + (if a.toInt ≤ b.toInt then 1 else -1) * k)).toInt =
      a.toInt + (if a.toInt ≤ b.toInt then 1 else -1) * k := by
  have hlo := a.le_toInt
  have hhi := a.toInt_lt
  have hlo' := b.le_toInt
  have hhi' := b.toInt_lt
  rw [Int64.toInt_ofInt]
  split <;> exact Int.bmod_eq_of_le_mul_two (by push_cast; omega) (by push_cast; omega)

theorem integersBetween_eq (a b : Int) : Kernel.integersBetween a b =
    (List.range ((b - a).natAbs + 1)).map fun (k : Nat) =>
      .int (Int64.ofInt (a + (if a ≤ b then 1 else -1) * k)) := by
  unfold Kernel.integersBetween
  by_cases h : a ≤ b
  · have hlength : (b - a).toNat = (b - a).natAbs := by omega
    simp only [if_pos h, hlength, one_mul]
  · have hlength : (a - b).toNat = (b - a).natAbs := by omega
    simp only [if_neg h, hlength, neg_one_mul, ← sub_eq_add_neg]

/-- The ends are as many steps apart as there are integers behind the first one. -/
theorem add_steps (a b : Int) : a + (if a ≤ b then 1 else -1) * ((b - a).natAbs : Int) = b := by
  split <;> omega

theorem counts_between (a b : Int64) :
    Counts a b (Kernel.integersBetween a.toInt b.toInt) := by
  rw [integersBetween_eq]
  refine ⟨by rw [List.length_map, List.length_range], ?_, ?_, fun k hk => ?_⟩
  · rw [List.range_succ_eq_map]
    simp
  · rw [List.range_succ, List.map_append, List.map_singleton, List.getLast?_concat, add_steps,
      Int64.ofInt_toInt]
  · rw [List.length_map, List.length_range] at hk
    refine ⟨_, ?_, toInt_ofInt_step (Nat.le_of_lt_succ hk)⟩
    rw [List.getElem?_map, List.getElem?_range hk]
    rfl

/-- The ends say what the items are. -/
theorem Counts.unique {others : List Value} (h : Counts a b items) (h' : Counts a b others) :
    items = others := by
  refine List.ext_getElem? fun k => ?_
  have hlength : items.length = others.length := h.length.trans h'.length.symm
  by_cases hk : k < items.length
  · obtain ⟨x, hx, hexact⟩ := h.item k hk
    obtain ⟨y, hy, hexact'⟩ := h'.item k (hlength ▸ hk)
    rw [hx, hy, Int64.toInt_inj.mp (hexact.trans hexact'.symm)]
  · rw [List.getElem?_eq_none (by omega), List.getElem?_eq_none (by omega)]

/-- Read backwards, the integers count from the other end. -/
theorem Counts.reverse (h : Counts a b items) : Counts b a items.reverse := by
  refine ⟨?_, by rw [List.head?_reverse, h.last], by rw [List.getLast?_reverse, h.first],
    fun k hk => ?_⟩
  · rw [List.length_reverse, h.length]
    omega
  · rw [List.length_reverse] at hk
    obtain ⟨x, hx, hexact⟩ := h.item (items.length - 1 - k) (by omega)
    refine ⟨x, by rw [List.getElem?_reverse hk, hx], ?_⟩
    have hlength := h.length
    rw [hexact]
    split <;> split <;> omega

/-- A kernel that knows the operands decides. -/
theorem outcome_kernel {answer : Except Error Value} (hkernel : op.kernel l r = some answer) :
    op.outcome names l r = answer := by
  have hdirect : op.direct names l r = some ([], answer) := by rw [direct, hkernel]
  exact outcome_direct hdirect

theorem outcome_interval (names : Names) (a b : Int64) :
    interval.outcome names (.int a) (.int b) =
      if (b.toInt - a.toInt).natAbs < maxCollectionLength then
        .ok (.array .int (Kernel.integersBetween a.toInt b.toInt))
      else .error (.outsideDomain (some (.int b)) 2 "...") := by
  have hkernel : interval.kernel (.int a) (.int b) = _ := Kernel.interval_eq a b
  exact outcome_kernel hkernel

/-! ### Replication and repetition -/

theorem outcome_generate (names : Names) (v : Value) (n : Int64) :
    generate.outcome names v (.int n) =
      if 0 ≤ n.toInt ∧ n.toInt ≤ maxCollectionLength then
        .ok (.array v.kind (List.replicate n.toInt.toNat v))
      else .error (.outsideDomain (some (.int n)) 2 "#") := by
  have hsign : 0 ≤ n ↔ 0 ≤ n.toInt := Int64.le_iff_toInt_le
  rw [outcome_kernel rfl]
  simp only [Bool.and_eq_true, decide_eq_true_eq, hsign]

theorem times_eq (s : Text) (n : Nat) : s.times n = (List.replicate n s).flatten := by
  induction n with
  | zero => rfl
  | succ n ih => rw [Text.times, ih, List.replicate_succ, List.flatten_cons]

/-- A string is repeated as often as it is asked for; an empty one stays empty. -/
theorem repeated_eq (s : Text) (n : Nat) :
    (if s.isEmpty then [] else s.times n) = (List.replicate n s).flatten := by
  split
  · next h => simp [List.isEmpty_iff.mp h]
  · exact times_eq s n

theorem outcome_repeat (names : Names) (s : Text) (n : Int64) :
    times.outcome names (.text s) (.int n) =
      if 0 ≤ n.toInt ∧ n.toInt * s.length ≤ maxCollectionLength then
        .ok (.text (List.replicate n.toInt.toNat s).flatten)
      else .error (.outsideDomain (some (.int n)) 2 "*") := by
  have hsign : n < 0 ↔ n.toInt < 0 := Int64.lt_iff_toInt_lt
  have hkernel : times.kernel (.text s) (.int n) = some (Kernel.repeatText s n) := rfl
  rw [outcome_kernel hkernel, Kernel.repeatText, repeated_eq]
  by_cases hn : n.toInt < 0
  · rw [if_pos (by simp [hsign, hn]), if_neg (by omega)]
  · have htest : Kernel.tooLong s.length n = true ↔ _ := Kernel.tooLong_iff (not_lt.mp hn)
    by_cases hlong : (maxCollectionLength : Int) < n.toInt * s.length
    · rw [if_pos (by simp [htest.mpr hlong]), if_neg (by omega)]
    · have hshort : Kernel.tooLong s.length n = false := by simpa using mt htest.mp hlong
      rw [if_neg (by simp [hshort, hsign, hn]), if_pos ⟨not_lt.mp hn, not_lt.mp hlong⟩]

/-- The test of the length of a repeated string, in 64 bits throughout. -/
def tooLong64 (length n : Int64) : Bool :=
  0 < length && Int64.ofNat maxCollectionLength / length < n

/-- No step of the test overflows: it compares a quotient, which is no larger than the bound. -/
theorem tooLong64_eq {length : Nat} (hlength : length < 2 ^ 63) (n : Int64) :
    tooLong64 (Int64.ofNat length) n = Kernel.tooLong length n := by
  have hmost : (Int64.ofNat maxCollectionLength).toInt = maxCollectionLength := by decide
  have hvalue : (Int64.ofNat length).toInt = length := Int64.toInt_ofNat_of_lt hlength
  have hpos : 0 < Int64.ofNat length ↔ 0 < length := by
    rw [Int64.lt_iff_toInt_lt, hvalue]
    exact Int.natCast_pos
  have hquotient : (Int64.ofNat maxCollectionLength / Int64.ofNat length).toInt =
      (maxCollectionLength / length : Nat) := by
    have hne : Int64.ofNat maxCollectionLength ≠ Int64.minValue := by decide
    rw [Int64.toInt_div_of_ne_left _ _ hne, hmost, hvalue]
    exact Int.tdiv_eq_ediv_of_nonneg (Int.natCast_nonneg _)
  simp only [tooLong64, Kernel.tooLong, hpos, Int64.lt_iff_toInt_lt, hquotient]

/-! ### The law -/

/-- **Collections are exact and bounded**, for all operands:

1. an interval has all integers from one end to the other, and backwards those of the interval from
   the other end. There are at most `2 ^ 24` of them, and the loop that counts them ends after as
   many rounds; an interval that would be longer is an error;
2. a value is replicated exactly as often as it is asked for, from never to `2 ^ 24` times;
3. a string is repeated exactly as often as it is asked for, if the result has at most `2 ^ 24`
   bytes. The test of that length does not overflow for any string that has a length in 64 bits. -/
theorem collections_exact (names : Names) :
    (∀ a b : Int64,
      ((b.toInt - a.toInt).natAbs + 1 ≤ 2 ^ 24 → ∃ items, Counts a b items ∧
        interval.outcome names (.int a) (.int b) = .ok (.array .int items) ∧
        interval.outcome names (.int b) (.int a) = .ok (.array .int items.reverse) ∧
        ∀ limit, items.length ≤ limit →
          Guarded.countTo limit (Kernel.stride (b < a)) b a [] = .ok items) ∧
      (2 ^ 24 < (b.toInt - a.toInt).natAbs + 1 → interval.outcome names (.int a) (.int b) =
        .error (.outsideDomain (some (.int b)) 2 "..."))) ∧
    (∀ (v : Value) (n : Int64), generate.outcome names v (.int n) =
      if 0 ≤ n.toInt ∧ n.toInt ≤ 2 ^ 24 then
        .ok (.array v.kind (List.replicate n.toInt.toNat v))
      else .error (.outsideDomain (some (.int n)) 2 "#")) ∧
    ∀ (s : Text) (n : Int64),
      (times.outcome names (.text s) (.int n) =
        if 0 ≤ n.toInt ∧ n.toInt * s.length ≤ 2 ^ 24 then
          .ok (.text (List.replicate n.toInt.toNat s).flatten)
        else .error (.outsideDomain (some (.int n)) 2 "*")) ∧
      (s.length < 2 ^ 63 → tooLong64 (Int64.ofNat s.length) n = Kernel.tooLong s.length n) := by
  have hmost : maxCollectionLength = 2 ^ 24 := rfl
  have hmost' : (maxCollectionLength : Int) = 2 ^ 24 := rfl
  refine ⟨fun a b => ⟨fun hnear => ?_, fun hfar => ?_⟩, fun v n => ?_, fun s n => ⟨?_, fun h => ?_⟩⟩
  · have hcounts := counts_between a b
    have hsame : Kernel.integersBetween b.toInt a.toInt =
        (Kernel.integersBetween a.toInt b.toInt).reverse :=
      (counts_between b a).unique hcounts.reverse
    refine ⟨_, hcounts, ?_, ?_, fun limit hlimit => ?_⟩
    · rw [outcome_interval, if_pos (by omega)]
    · rw [outcome_interval, if_pos (by omega), hsame]
    · have hsteps : Kernel.stepsTo (b < a) b a < limit := by
        rw [Kernel.stepsTo_eq, Kernel.toNat_distance]
        rw [hcounts.length] at hlimit
        omega
      rw [Guarded.countTo_eq hsteps, List.reverse_nil, Kernel.countTo_between]
  · rw [outcome_interval, if_neg (by omega)]
  · rw [outcome_generate, hmost']
  · rw [outcome_repeat, hmost']
  · exact tooLong64_eq h n

end Operator

end Reckoner
