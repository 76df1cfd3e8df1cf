import Mathlib.Tactic
import Reckoner.Number.Numeral

/-!
# Decimal numerals read back

The digits of a natural number, with or without zeros in front, stand for the number; hence an
integer of 64 bits is read back from its text.
-/

namespace Reckoner

namespace Text

/-! ### Digits and their value -/

/-- The byte of a decimal digit. -/
theorem byte_digitChar : ∀ d < 10, byte (Nat.digitChar d) = (48 + d).toUInt8 := by decide

theorem toNat_digit : ∀ d < 10, ((48 + d).toUInt8).toNat = 48 + d := by decide

theorem isDigit_digit : ∀ d < 10, isDigit (48 + d).toUInt8 = true := by decide

theorem isDigit_iff (b : UInt8) : isDigit b = true ↔ 48 ≤ b.toNat ∧ b.toNat ≤ 57 := by
  simp [isDigit, UInt8.le_iff_toNat_le]

/-- The last digit comes off the end. -/
theorem ofNat_eq (n : Nat) :
    ofNat n = (if n < 10 then [] else ofNat (n / 10)) ++ [(48 + n % 10).toUInt8] := by
  unfold ofNat
  rw [Nat.toDigits_eq_if (by omega)]
  split
  · rw [List.map_cons, List.map_nil, byte_digitChar n (by omega),
      Nat.mod_eq_of_lt (by omega : n < 10), List.nil_append]
  · rw [List.map_append, List.map_cons, List.map_nil, byte_digitChar (n % 10) (by omega)]

theorem ofNat_ne_nil (n : Nat) : ofNat n ≠ [] := by
  simp [ofNat, Nat.toDigits_ne_nil]

theorem isDigit_of_mem_ofNat {n : Nat} {b : UInt8} (h : b ∈ ofNat n) : isDigit b = true := by
  induction n using Nat.strongRecOn with
  | ind n ih =>
    rw [ofNat_eq, List.mem_append, List.mem_singleton] at h
    rcases h with h | rfl
    · split at h
      · simp at h
      · exact ih (n / 10) (by omega) h
    · exact isDigit_digit (n % 10) (by omega)

theorem length_ofNat_le_iff {n k : Nat} (h : 0 < k) : (ofNat n).length ≤ k ↔ n < 10 ^ k := by
  rw [ofNat, List.length_map, Nat.length_toDigits_le_iff (by omega) h]

theorem length_ofNat_pos (n : Nat) : 0 < (ofNat n).length :=
  List.length_pos_iff.mpr (ofNat_ne_nil n)

/-- A number between two neighbouring powers of ten has as many digits as the larger one says. -/
theorem length_ofNat {n k : Nat} (hlo : 10 ^ k ≤ n) (hhi : n < 10 ^ (k + 1)) :
    (ofNat n).length = k + 1 := by
  have h1 : (ofNat n).length ≤ k + 1 := (length_ofNat_le_iff (by omega)).mpr hhi
  have h2 : k < (ofNat n).length := by
    by_contra h
    rcases Nat.eq_zero_or_pos k with rfl | hk
    · exact h (length_ofNat_pos n)
    · exact absurd ((length_ofNat_le_iff (n := n) hk).mp (by omega)) (by omega)
  omega

/-- Reading digits goes on from what has been read. -/
theorem foldl_digits (acc : Nat) (ds : Text) :
    ds.foldl (fun n d => 10 * n + (d.toNat - 48)) acc = acc * 10 ^ ds.length + digitsValue ds := by
  induction ds generalizing acc with
  | nil => simp [digitsValue]
  | cons d ds ih =>
    simp only [List.foldl_cons, digitsValue, List.length_cons]
    rw [ih, ih (10 * 0 + (d.toNat - 48))]
    ring

theorem digitsValue_append (ds es : Text) :
    digitsValue (ds ++ es) = digitsValue ds * 10 ^ es.length + digitsValue es := by
  rw [digitsValue, List.foldl_append, foldl_digits]
  rfl

theorem digitsValue_cons (d : UInt8) (ds : Text) :
    digitsValue (d :: ds) = (d.toNat - 48) * 10 ^ ds.length + digitsValue ds := by
  rw [digitsValue, List.foldl_cons, foldl_digits, Nat.mul_zero, Nat.zero_add]

@[simp] theorem digitsValue_nil : digitsValue [] = 0 := rfl

theorem digitsValue_zeros (k : Nat) : digitsValue (List.replicate k (byte '0')) = 0 := by
  induction k with
  | zero => rfl
  | succ k ih =>
    have hz : (byte '0').toNat - 48 = 0 := by decide
    rw [List.replicate_succ, digitsValue_cons, ih, hz, Nat.zero_mul]

/-- The digits of a number stand for it. -/
theorem digitsValue_ofNat (n : Nat) : digitsValue (ofNat n) = n := by
  induction n using Nat.strongRecOn with
  | ind n ih =>
    rw [ofNat_eq, digitsValue_append]
    have hd : digitsValue [(48 + n % 10).toUInt8] = n % 10 := by
      rw [digitsValue_cons, toNat_digit (n % 10) (by omega)]
      simp
    rw [hd]
    split
    · simp; omega
    · rw [ih (n / 10) (by omega)]; simp; omega

/-! ### Padded numbers -/

theorem length_padLeft {n k : Nat} (hk : 0 < k) (h : n < 10 ^ k) :
    (padLeft '0' k (ofNat n)).length = k := by
  have := (length_ofNat_le_iff hk).mpr h
  simp only [padLeft, List.length_append, List.length_replicate]
  omega

theorem isDigit_of_mem_padLeft {n k : Nat} {b : UInt8} (h : b ∈ padLeft '0' k (ofNat n)) :
    isDigit b = true := by
  rw [padLeft, List.mem_append] at h
  rcases h with h | h
  · rw [List.eq_of_mem_replicate h]
    decide
  · exact isDigit_of_mem_ofNat h

theorem digitsValue_padLeft (n k : Nat) : digitsValue (padLeft '0' k (ofNat n)) = n := by
  rw [padLeft, digitsValue_append, digitsValue_zeros, digitsValue_ofNat, Nat.zero_mul, Nat.zero_add]

end Text

/-! ### Integers -/

namespace Numeral

open Text (isDigit digitsValue)

/-- A digit is taken off the text and put behind the number that has been scanned. -/
theorem scanned_cons (acc : Nat) (d : UInt8) (ds : Text) :
    acc * 10 ^ (d :: ds).length + digitsValue (d :: ds)
      = (10 * acc + (d.toNat - 48)) * 10 ^ ds.length + digitsValue ds := by
  rw [Text.digitsValue_cons, List.length_cons]
  ring

/-- What has been scanned is at most the number. -/
theorem le_scanned (acc : Nat) (ds : Text) : acc ≤ acc * 10 ^ ds.length + digitsValue ds :=
  (Nat.le_mul_of_pos_right acc (by positivity)).trans (Nat.le_add_right _ _)

/-- Digits whose value stays in range are scanned to the end. -/
theorem scanUnsigned_digits {bits : Nat} {ds : Text} (acc : Nat)
    (hd : ∀ b ∈ ds, isDigit b = true) (hlt : acc * 10 ^ ds.length + digitsValue ds < 2 ^ bits) :
    scanUnsigned bits acc ds = .ok (acc * 10 ^ ds.length + digitsValue ds) := by
  induction ds generalizing acc with
  | nil => simp [scanUnsigned]
  | cons d ds ih =>
    rw [scanned_cons] at hlt ⊢
    simp only [scanUnsigned, hd d List.mem_cons_self, if_true, Nat.pow_eq]
    rw [if_pos ((le_scanned _ ds).trans_lt hlt),
      ih _ (fun b hb => hd b (List.mem_cons_of_mem d hb)) hlt]

theorem unsigned_ofNat {bits n : Nat} (h : n < 2 ^ bits) :
    unsigned? bits (Text.ofNat n) = .ok n := by
  have hne : (Text.ofNat n).isEmpty = false := by simp [Text.ofNat_ne_nil]
  rw [unsigned?, hne, if_neg (by simp),
    scanUnsigned_digits 0 (fun b hb => Text.isDigit_of_mem_ofNat hb)
      (by rw [Text.digitsValue_ofNat]; omega), Text.digitsValue_ofNat]
  simp

/-- A text that starts with a digit has no sign. -/
theorem splitSign_digit {d : UInt8} (h : isDigit d = true) (ds : Text) :
    splitSign (d :: ds) = (false, d :: ds) := by
  unfold splitSign
  split
  · rename_i heq
    obtain ⟨rfl, -⟩ := List.cons.inj heq
    exact absurd h (by decide)
  · rename_i heq
    obtain ⟨rfl, -⟩ := List.cons.inj heq
    exact absurd h (by decide)
  · rfl

theorem splitSign_ofNat (n : Nat) : splitSign (Text.ofNat n) = (false, Text.ofNat n) := by
  obtain ⟨d, ds, hds⟩ := List.exists_cons_of_ne_nil (Text.ofNat_ne_nil n)
  rw [hds]
  exact splitSign_digit (Text.isDigit_of_mem_ofNat (n := n) (by rw [hds]; simp)) ds

/-- An integer of 64 bits is read back from its text. -/
theorem int64_ofInt (n : Int64) : int64? (Text.ofInt n.toInt) = .ok n := by
  have h1 := n.le_toInt
  have h2 := n.toInt_lt
  have hu : unsigned? 64 (Text.ofNat n.toInt.natAbs) = .ok n.toInt.natAbs :=
    unsigned_ofNat (by omega)
  have hrange : (decide (-((2 ^ 63 : Nat) : Int) ≤ n.toInt) && decide (n.toInt < (2 ^ 63 : Nat)))
      = true := by
    simp only [Bool.and_eq_true, decide_eq_true_eq]
    omega
  unfold int64? Text.ofInt
  by_cases hneg : n.toInt < 0
  · have hs : splitSign (Text.byte '-' :: Text.ofNat n.toInt.natAbs)
        = (true, Text.ofNat n.toInt.natAbs) := rfl
    have hval : -(n.toInt.natAbs : Int) = n.toInt := by omega
    rw [if_pos hneg, hs]
    simp only [hu, if_true, hval, Nat.pow_eq, hrange, Int64.ofInt_toInt]
  · have hval : (n.toInt.natAbs : Int) = n.toInt := by omega
    rw [if_neg hneg, splitSign_ofNat]
    simp only [hu, Bool.false_eq_true, if_false, hval, Nat.pow_eq, hrange, if_true,
      Int64.ofInt_toInt]

/-- A truth value is read back from its text. -/
theorem bool_text (b : Bool) :
    bool? (if b then ("true" : Text) else "false") = .ok b := by
  cases b <;> rfl

end Numeral

end Reckoner
