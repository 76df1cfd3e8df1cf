import Mathlib.Tactic
import Reckoner.Proofs.Numeral
import Reckoner.Proofs.Shortest

/-!
# Texts of doubles read back

A double is read back from its text: every bit of it, unless it is not a number, which reads as
the one word that `NaN` stands for. The digits come from `shortest`; what is left is that each of
the layouts, with an exponent or with the point in any place, is scanned as the same digits at the
same power of ten.
-/

namespace Reckoner

namespace Numeral

open Text (isDigit lowerByte byte digitsValue)

/-! ### Scanning -/

/-- What scanning some digits adds to a mantissa. -/
def Mantissa.take (m : Mantissa) (ds : Text) : Mantissa :=
  { m with
    value := m.value * 10 ^ ds.length + digitsValue ds
    behind := if m.sawPoint then m.behind + ds.length else m.behind
    sawDigit := m.sawDigit || !ds.isEmpty }

theorem hexValue_digit {d : UInt8} (h : isDigit d = true) :
    Text.hexValue? d = some (d.toNat - 48) ∧ d.toNat - 48 < 10 ∧ d ≠ byte '_' ∧ d ≠ byte '.' := by
  have hd := (Text.isDigit_iff d).mp h
  have h1 : (48 ≤ d && d ≤ 57) = true := h
  refine ⟨by simp only [Text.hexValue?, h1, if_true], by omega, ?_, ?_⟩
  · rintro rfl; revert h; decide
  · rintro rfl; revert h; decide

theorem scanMantissa_digit {d : UInt8} (h : isDigit d = true) (m : Mantissa) (rest : Text) :
    scanMantissa false m (d :: rest) = scanMantissa false (m.take [d]) rest := by
  obtain ⟨hhex, hlt, hu, hp⟩ := hexValue_digit h
  rw [scanMantissa, if_neg hu, if_neg hp]
  simp only [Bool.false_eq_true, if_false, hhex, hlt, if_true, Mantissa.take,
    List.length_singleton, pow_one, Text.digitsValue_cons, List.length_nil, pow_zero, mul_one,
    Text.digitsValue_nil, add_zero, List.isEmpty_cons, Bool.not_false, Bool.or_true]
  rw [Nat.mul_comm]

theorem Mantissa.take_nil (m : Mantissa) : m.take [] = m := by
  cases m
  simp [Mantissa.take]

theorem Mantissa.take_cons (m : Mantissa) (d : UInt8) (ds : Text) :
    (m.take [d]).take ds = m.take (d :: ds) := by
  simp only [Mantissa.take, Mantissa.mk.injEq, List.length_cons, List.length_nil,
    Text.digitsValue_cons, Text.digitsValue_nil, and_true, true_and]
  refine ⟨by ring, ?_, by simp⟩
  split <;> omega

/-- Digits are scanned to their end. -/
theorem scanMantissa_digits {ds : Text} (h : ∀ d ∈ ds, isDigit d = true) (m : Mantissa)
    (rest : Text) :
    scanMantissa false m (ds ++ rest) = scanMantissa false (m.take ds) rest := by
  induction ds generalizing m with
  | nil => rw [Mantissa.take_nil, List.nil_append]
  | cons d ds ih =>
    rw [List.cons_append, scanMantissa_digit (h d List.mem_cons_self),
      ih (fun b hb => h b (List.mem_cons_of_mem d hb)), Mantissa.take_cons]

theorem scanMantissa_point {m : Mantissa} (h : m.sawPoint = false) (rest : Text) :
    scanMantissa false m (byte '.' :: rest) =
      scanMantissa false { m with sawPoint := true } rest := by
  have hu : byte '.' ≠ byte '_' := by decide
  rw [scanMantissa, if_neg hu, if_pos rfl, h]
  simp

theorem scanMantissa_mark (m : Mantissa) (rest : Text) :
    scanMantissa false m (byte 'e' :: rest) = { m with rest := byte 'e' :: rest } := by
  have hu : byte 'e' ≠ byte '_' := by decide
  have hp : byte 'e' ≠ byte '.' := by decide
  have hhex : Text.hexValue? (byte 'e') = some 14 := by decide
  rw [scanMantissa, if_neg hu, if_neg hp]
  simp [hhex]

theorem scanMantissa_nil (m : Mantissa) : scanMantissa false m [] = { m with rest := [] } := rfl

/-- The digits of a small exponent are scanned to the end. -/
theorem scanExponent_digits {ds : Text} (acc : Nat) (h : ∀ d ∈ ds, isDigit d = true)
    (hlt : acc * 10 ^ ds.length + digitsValue ds < 10000) :
    scanExponent acc ds = (acc * 10 ^ ds.length + digitsValue ds, []) := by
  induction ds generalizing acc with
  | nil => simp [scanExponent]
  | cons d ds ih =>
    have hd := h d List.mem_cons_self
    rw [scanned_cons] at hlt ⊢
    have hle := le_scanned (10 * acc + (d.toNat - 48)) ds
    rw [scanExponent, if_neg (hexValue_digit hd).2.2.1, if_pos hd, if_pos (by omega),
      ih _ (fun b hb => h b (List.mem_cons_of_mem d hb)) hlt]

/-- An exponent is read back from its sign and its digits. -/
theorem exponent_read {e : Int} (h : e.natAbs < 10000) :
    exponent? (Text.ofString (if e < 0 then "-" else "+")
      ++ Text.padLeft '0' 2 (Text.ofNat e.natAbs)) = some (e, []) := by
  have hd : ∀ b ∈ Text.padLeft '0' 2 (Text.ofNat e.natAbs), isDigit b = true :=
    fun b hb => Text.isDigit_of_mem_padLeft hb
  have hv := Text.digitsValue_padLeft e.natAbs 2
  have hne : Text.padLeft '0' 2 (Text.ofNat e.natAbs) ≠ [] := by
    simp [Text.padLeft, Text.ofNat_ne_nil]
  generalize Text.padLeft '0' 2 (Text.ofNat e.natAbs) = ds at *
  obtain ⟨d, tail, rfl⟩ := List.exists_cons_of_ne_nil hne
  have hscan := scanExponent_digits 0 hd (by omega)
  have hfirst := hd d List.mem_cons_self
  rw [hv, Nat.zero_mul, Nat.zero_add] at hscan
  by_cases hneg : e < 0
  · have hs : splitSign (("-" : Text) ++ d :: tail) = (true, d :: tail) := rfl
    rw [if_pos hneg, exponent?, hs]
    simp only [hfirst, if_true, hscan]
    congr 2
    omega
  · have hs : splitSign (("+" : Text) ++ d :: tail) = (false, d :: tail) := rfl
    rw [if_neg hneg, exponent?, hs]
    simp only [hfirst, if_true, hscan, Bool.false_eq_true, if_false]
    congr 2
    omega

/-! ### Decimal numerals -/

/-- The bytes that decimal numerals are made of. -/
def decimalByte (b : UInt8) : Bool := isDigit b || b = 46 || b = 101 || b = 43 || b = 45

theorem decimalByte_spec {b : UInt8} (h : decimalByte b = true) :
    b ≠ byte '_' ∧ lowerByte b ≠ byte 'x' := by
  simp only [decimalByte, Bool.or_eq_true, decide_eq_true_eq] at h
  rcases h with (((h | rfl) | rfl) | rfl) | rfl
  · have hd := (Text.isDigit_iff b).mp h
    have hlow : lowerByte b = b := by
      rw [lowerByte, if_neg]
      simp only [Bool.and_eq_true, decide_eq_true_eq, UInt8.le_iff_toNat_le]
      rintro ⟨h1, -⟩
      have : (65 : UInt8).toNat = 65 := rfl
      omega
    rw [hlow]
    constructor
    · rintro rfl; revert h; decide
    · rintro rfl; revert h; decide
  all_goals decide

theorem splitBase_decimal {t : Text} (h : ∀ b ∈ t, decimalByte b = true) :
    splitBase t = (false, t) := by
  unfold splitBase
  split
  · rename_i x b rest
    rw [if_neg (decimalByte_spec (h x (by simp))).2]
  · rfl

/-- A text that starts with a digit, with or without a sign, is no word for a special value. -/
theorem special_digit {d : UInt8} (h : isDigit d = true) (negative : Bool) (ds : Text) :
    special? ((if negative then ("-" : Text) else "") ++ d :: ds) = none := by
  have hd := (Text.isDigit_iff d).mp h
  have hlow : lowerByte d = d := by
    rw [lowerByte, if_neg]
    simp only [Bool.and_eq_true, decide_eq_true_eq, UInt8.le_iff_toNat_le]
    rintro ⟨h1, -⟩
    have : (65 : UInt8).toNat = 65 := rfl
    omega
  have hi : (d == 105) = false := by rw [beq_eq_false_iff_ne]; rintro rfl; revert h; decide
  have hn : (d == 110) = false := by rw [beq_eq_false_iff_ne]; rintro rfl; revert h; decide
  have hinf : Text.ofString "inf" = [105, 110, 102] := rfl
  have hinfinity : Text.ofString "infinity" = [105, 110, 102, 105, 110, 105, 116, 121] := rfl
  have hnan : Text.ofString "nan" = [110, 97, 110] := rfl
  cases negative with
  | true =>
    have hs : (if true = true then ("-" : Text) else "") ++ d :: ds = 45 :: d :: ds := rfl
    rw [hs, special?]
    simp [hlow, hinf, hinfinity, hi]
  | false =>
    have hs : (if false = true then ("-" : Text) else "") ++ d :: ds = d :: ds := rfl
    rw [hs, special?]
    · simp [hlow, hinf, hinfinity, hnan, hi, hn]
    · rintro rest heq
      obtain ⟨rfl, -⟩ := List.cons.inj heq
      revert h; decide
    · rintro rest heq
      obtain ⟨rfl, -⟩ := List.cons.inj heq
      revert h; decide

/-- What stands behind a mantissa: nothing, or an exponent with its mark. -/
def Tail (t : Text) (e : Int) : Prop :=
  t = [] ∧ e = 0 ∨ ∃ rest, t = byte 'e' :: rest ∧ exponent? rest = some (e, [])

theorem scanMantissa_tail {t : Text} {e : Int} (h : Tail t e) (m : Mantissa) :
    scanMantissa false m t = { m with rest := t } := by
  rcases h with ⟨rfl, -⟩ | ⟨rest, rfl, -⟩
  · exact scanMantissa_nil m
  · exact scanMantissa_mark m rest

theorem scan_whole {whole t : Text} {e : Int} (hw : ∀ d ∈ whole, isDigit d = true)
    (hne : whole ≠ []) (ht : Tail t e) :
    scanMantissa false {} (whole ++ t) = ⟨digitsValue whole, 0, false, true, t⟩ := by
  rw [scanMantissa_digits hw, scanMantissa_tail ht]
  simp [Mantissa.take, hne]

theorem scan_fraction {whole frac t : Text} {e : Int} (hw : ∀ d ∈ whole, isDigit d = true)
    (hf : ∀ d ∈ frac, isDigit d = true) (hne : whole ≠ []) (ht : Tail t e) :
    scanMantissa false {} (whole ++ byte '.' :: (frac ++ t))
      = ⟨digitsValue (whole ++ frac), frac.length, true, true, t⟩ := by
  rw [scanMantissa_digits hw, scanMantissa_point rfl, scanMantissa_digits hf,
    scanMantissa_tail ht]
  simp [Mantissa.take, hne, Text.digitsValue_append]

/-- A text that is scanned as a decimal of the given value and exponent. -/
structure Decimal (t : Text) (value : Nat) (exponent : Int) : Prop where
  /-- It starts with a digit, so it has no sign. -/
  first : ∃ d ds, t = d :: ds ∧ isDigit d = true
  /-- It is made of what decimals are made of, so it is in no other base. -/
  bytes : ∀ b ∈ t, decimalByte b = true
  /-- The scan of its mantissa and of what follows ends with the value and the exponent. -/
  scan : ∃ m e, scanMantissa false {} t = m ∧ m.sawDigit = true ∧ Tail m.rest e ∧
    m.value = value ∧ e - m.behind = exponent

/-- **A decimal is read** as the double that its value is scaled to, with either sign. -/
theorem Decimal.double {t : Text} {value : Nat} {exponent : Int} {x : Binary64}
    (h : Decimal t value exponent) (negative : Bool)
    (hx : scaled negative value 10 exponent = x) (hfin : x.isInfinite = false) :
    double? ((if negative then ("-" : Text) else "") ++ t) = .ok x := by
  obtain ⟨⟨d, ds, rfl, hd⟩, hbytes, m, e, hm, hdigit, htail, rfl, rfl⟩ := h
  have hsplit : splitSign ((if negative then ("-" : Text) else "") ++ d :: ds)
      = (negative, d :: ds) := by
    cases negative
    · exact splitSign_digit hd ds
    · rfl
  have hscore :
      ((if negative then ("-" : Text) else "") ++ d :: ds).contains (byte '_') = false := by
    rw [List.contains_eq_mem, decide_eq_false_iff_not, List.mem_append]
    rintro (h | h)
    · cases negative
      · exact absurd h (by decide)
      · exact absurd h (by decide)
    · exact (decimalByte_spec (hbytes _ h)).1 rfl
  unfold double?
  rw [special_digit hd, hsplit]
  simp only [splitBase_decimal hbytes, hscore, Bool.false_and, Bool.or_false]
  simp only [hm, hdigit, Bool.not_true, Bool.false_eq_true, if_false]
  rcases htail with ⟨hrest, rfl⟩ | ⟨rest, hrest, hexp⟩
  · simp only [hrest, hx, hfin, Bool.false_eq_true, if_false]
  · have hmark : lowerByte (byte 'e') = byte 'e' := by decide
    simp only [hrest, hmark, if_true, hexp, hx, hfin, Bool.false_eq_true, if_false]

end Numeral

namespace Binary64

open Text (isDigit byte digitsValue)
open Numeral (scaled Decimal decimalByte Tail)

/-! ### Layouts -/

/-- The value and the exponent of a decimal as its layout shows them: whole numbers are filled up
with zeros. -/
def Digits.shown (d : Digits) : Nat × Int :=
  if 0 < d.point ∧ d.point ≤ 6 ∧ d.count ≤ d.point then
    (d.digits * 10 ^ (d.point - d.count).toNat, 0)
  else (d.digits, d.point - d.count)

theorem length_digits {units one : Nat} {d : Digits} (h : d.Fit units one) :
    (Text.ofNat d.digits).length = d.count := by
  obtain ⟨k, hk⟩ : ∃ k, d.count = k + 1 := ⟨d.count - 1, by have := h.count_pos; omega⟩
  have hlow := h.low
  have hhigh := h.high
  rw [hk] at hlow hhigh ⊢
  exact Text.length_ofNat hlow hhigh

theorem decimalByte_digit {b : UInt8} (h : isDigit b = true) : decimalByte b = true := by
  simp [decimalByte, h]

/-- A decimal of some digits with a tail. -/
theorem decimal_whole {whole t : Text} {e : Int} (hw : ∀ d ∈ whole, isDigit d = true)
    (hne : whole ≠ []) (ht : Tail t e) (hbytes : ∀ b ∈ t, decimalByte b = true) :
    Decimal (whole ++ t) (digitsValue whole) e := by
  obtain ⟨d, ds, rfl⟩ := List.exists_cons_of_ne_nil hne
  refine ⟨⟨d, ds ++ t, rfl, hw d List.mem_cons_self⟩, fun b hb => ?_, ?_⟩
  · rcases List.mem_append.mp hb with hb | hb
    · exact decimalByte_digit (hw b hb)
    · exact hbytes b hb
  · exact ⟨_, e, Numeral.scan_whole hw hne ht, rfl, ht, rfl, by simp⟩

/-- A decimal of some digits, a point, more digits, and a tail. -/
theorem decimal_fraction {whole frac t : Text} {e : Int} (hw : ∀ d ∈ whole, isDigit d = true)
    (hf : ∀ d ∈ frac, isDigit d = true) (hne : whole ≠ []) (ht : Tail t e)
    (hbytes : ∀ b ∈ t, decimalByte b = true) :
    Decimal (whole ++ byte '.' :: (frac ++ t)) (digitsValue (whole ++ frac)) (e - frac.length) := by
  obtain ⟨d, ds, rfl⟩ := List.exists_cons_of_ne_nil hne
  refine ⟨⟨d, _, rfl, hw d List.mem_cons_self⟩, fun b hb => ?_, ?_⟩
  · rcases List.mem_append.mp hb with hb | hb
    · exact decimalByte_digit (hw b hb)
    · rcases List.mem_cons.mp hb with rfl | hb
      · rfl
      · rcases List.mem_append.mp hb with hb | hb
        · exact decimalByte_digit (hf b hb)
        · exact hbytes b hb
  · exact ⟨_, e, Numeral.scan_fraction hw hf hne ht, rfl, ht, rfl, rfl⟩

theorem tail_nil : Tail [] 0 := .inl ⟨rfl, rfl⟩

/-- The exponent as it is written. -/
theorem tail_exponent {e : Int} (h : e.natAbs < 10000) :
    Tail (("e" : Text) ++ Text.ofString (if e < 0 then "-" else "+")
      ++ Text.padLeft '0' 2 (Text.ofNat e.natAbs)) e := by
  refine .inr ⟨_, rfl, ?_⟩
  exact Numeral.exponent_read h

theorem bytes_exponent (e : Int) :
    ∀ b ∈ ("e" : Text) ++ Text.ofString (if e < 0 then "-" else "+")
      ++ Text.padLeft '0' 2 (Text.ofNat e.natAbs), decimalByte b = true := by
  intro b hb
  rcases List.mem_append.mp hb with hb | hb
  · have hsign : ∀ b ∈ ("e" : Text) ++ ("-" : Text), decimalByte b = true :=
      List.all_eq_true.mp (by decide)
    have hsign' : ∀ b ∈ ("e" : Text) ++ ("+" : Text), decimalByte b = true :=
      List.all_eq_true.mp (by decide)
    split at hb
    · exact hsign b hb
    · exact hsign' b hb
  · exact decimalByte_digit (Text.isDigit_of_mem_padLeft hb)

theorem decimal_zeros (k : Nat) : ∀ b ∈ List.replicate k (byte '0'), isDigit b = true := by
  intro b hb
  rw [List.eq_of_mem_replicate hb]
  rfl

/-- Digits, with a point behind the first if there are more, and an exponent. -/
theorem layout_exponent {units one : Nat} {d : Digits} (h : d.Fit units one)
    (he : d.point - 1 < -4 ∨ 6 ≤ d.point - 1) :
    Decimal (layout d) d.digits (d.point - d.count) := by
  have hlen := length_digits h
  have hdigits : ∀ b ∈ Text.ofNat d.digits, isDigit b = true :=
    fun b hb => Text.isDigit_of_mem_ofNat hb
  have hvalue := Text.digitsValue_ofNat d.digits
  have hrange := h.range
  have htail : Tail _ (d.point - 1) := tail_exponent (by omega)
  have hbytes := bytes_exponent (d.point - 1)
  have hcond : (decide (d.point - 1 < -4) || decide (6 ≤ d.point - 1)) = true := by simpa using he
  unfold layout
  simp only [hcond, if_true]
  generalize hds : Text.ofNat d.digits = ds at *
  match ds with
  | [] => exact absurd hds (Text.ofNat_ne_nil _)
  | [a] =>
    have hwhole := decimal_whole hdigits (by simp) htail hbytes
    rw [hvalue] at hwhole
    have hcount : d.point - d.count = d.point - 1 := by rw [← hlen]; simp
    rw [hcount]
    simpa only [List.append_assoc] using hwhole
  | a :: b :: rest =>
    have hfirst : ∀ c ∈ [a], isDigit c = true := fun c hc =>
      hdigits c (List.mem_singleton.mp hc ▸ List.mem_cons_self)
    have hrest : ∀ c ∈ b :: rest, isDigit c = true := fun c hc =>
      hdigits c (List.mem_cons_of_mem a hc)
    have hfrac := decimal_fraction hfirst hrest (by simp) htail hbytes
    rw [show [a] ++ b :: rest = a :: b :: rest from rfl, hvalue] at hfrac
    have hcount : d.point - d.count = d.point - 1 - ((b :: rest).length : Nat) := by
      rw [← hlen]; simp only [List.length_cons]; omega
    rw [hcount]
    simpa only [List.append_assoc, List.cons_append, List.nil_append] using hfrac

/-- A point with zeros on both sides in front of the digits. -/
theorem layout_below {units one : Nat} {d : Digits} (h : d.Fit units one)
    (hlow : -4 ≤ d.point - 1) (hneg : d.point ≤ 0) :
    Decimal (layout d) d.digits (d.point - d.count) := by
  have hlen := length_digits h
  have hdigits : ∀ b ∈ List.replicate d.point.natAbs (byte '0') ++ Text.ofNat d.digits,
      isDigit b = true := by
    intro b hb
    rcases List.mem_append.mp hb with hb | hb
    · exact decimal_zeros _ b hb
    · exact Text.isDigit_of_mem_ofNat hb
  have hzero : ∀ b ∈ [byte '0'], isDigit b = true := List.all_eq_true.mp (by decide)
  have hfrac := decimal_fraction hzero hdigits (by simp) tail_nil (by simp)
  have hvalue : digitsValue ([byte '0'] ++ (List.replicate d.point.natAbs (byte '0')
      ++ Text.ofNat d.digits)) = d.digits := by
    have hzero : digitsValue [byte '0'] = 0 := rfl
    rw [Text.digitsValue_append, Text.digitsValue_append, Text.digitsValue_zeros, hzero,
      Text.digitsValue_ofNat]
    omega
  have hcount : d.point - d.count
      = 0 - ((List.replicate d.point.natAbs (byte '0') ++ Text.ofNat d.digits).length : Nat) := by
    rw [List.length_append, List.length_replicate, hlen]
    omega
  have hcond : (decide (d.point - 1 < -4) || decide (6 ≤ d.point - 1)) = false := by
    simp; omega
  rw [hvalue, ← hcount, List.append_nil] at hfrac
  unfold layout
  simp only [hcond, if_pos hneg, Bool.false_eq_true, if_false]
  exact hfrac

/-- Digits that are filled up with zeros. -/
theorem layout_whole {units one : Nat} {d : Digits} (h : d.Fit units one)
    (hpos : 0 < d.point) (hle : d.point ≤ 6) (hcount : d.count ≤ d.point) :
    Decimal (layout d) (d.digits * 10 ^ (d.point - d.count).toNat) 0 := by
  have hlen := length_digits h
  have hdigits : ∀ b ∈ Text.ofNat d.digits
      ++ List.replicate (d.point - d.count).toNat (byte '0'), isDigit b = true := by
    intro b hb
    rcases List.mem_append.mp hb with hb | hb
    · exact Text.isDigit_of_mem_ofNat hb
    · exact decimal_zeros _ b hb
  have hwhole := decimal_whole hdigits (by simp [Text.ofNat_ne_nil]) tail_nil (by simp)
  have hcond : (decide (d.point - 1 < -4) || decide (6 ≤ d.point - 1)) = false := by
    simp; omega
  have hfill : d.point.toNat - (Text.ofNat d.digits).length = (d.point - d.count).toNat := by
    rw [hlen]; omega
  have hfits : (Text.ofNat d.digits).length ≤ d.point.toNat := by rw [hlen]; omega
  rw [Text.digitsValue_append, Text.digitsValue_zeros, Text.digitsValue_ofNat,
    List.length_replicate, List.append_nil, Nat.add_zero] at hwhole
  unfold layout
  simp only [hcond, if_neg (not_le.mpr hpos), Bool.false_eq_true, if_false, if_pos hfits, hfill]
  exact hwhole

/-- Digits with the point between them. -/
theorem layout_inside {units one : Nat} {d : Digits} (h : d.Fit units one)
    (hpos : 0 < d.point) (hle : d.point ≤ 6) (hcount : d.point < d.count) :
    Decimal (layout d) d.digits (d.point - d.count) := by
  have hlen := length_digits h
  have hdigits : ∀ b ∈ Text.ofNat d.digits, isDigit b = true :=
    fun b hb => Text.isDigit_of_mem_ofNat hb
  have hne : (Text.ofNat d.digits).take d.point.toNat ≠ [] := by
    intro hnil
    rcases List.take_eq_nil_iff.mp hnil with h0 | h0
    · omega
    · exact Text.ofNat_ne_nil _ h0
  have hwhole : ∀ b ∈ (Text.ofNat d.digits).take d.point.toNat, isDigit b = true :=
    fun b hb => hdigits b (List.mem_of_mem_take hb)
  have hrest : ∀ b ∈ (Text.ofNat d.digits).drop d.point.toNat, isDigit b = true :=
    fun b hb => hdigits b (List.mem_of_mem_drop hb)
  have hfrac := decimal_fraction hwhole hrest hne tail_nil (by simp)
  have hcond : (decide (d.point - 1 < -4) || decide (6 ≤ d.point - 1)) = false := by
    simp; omega
  have hfits : ¬ (Text.ofNat d.digits).length ≤ d.point.toNat := by rw [hlen]; omega
  have hexp :
      d.point - d.count = 0 - (((Text.ofNat d.digits).drop d.point.toNat).length : Nat) := by
    rw [List.length_drop, hlen]
    omega
  rw [List.take_append_drop, Text.digitsValue_ofNat, List.append_nil, ← hexp] at hfrac
  unfold layout
  simp only [hcond, if_neg (not_le.mpr hpos), Bool.false_eq_true, if_false, if_neg hfits]
  rw [List.append_assoc]
  exact hfrac

/-- Every layout shows the digits and where their point stands. -/
theorem layout_decimal {units one : Nat} {d : Digits} (h : d.Fit units one) :
    Decimal (layout d) d.shown.1 d.shown.2 := by
  unfold Digits.shown
  split
  · rename_i hw
    exact layout_whole h hw.1 hw.2.1 hw.2.2
  · rename_i hw
    by_cases he : d.point - 1 < -4 ∨ 6 ≤ d.point - 1
    · exact layout_exponent h he
    · by_cases hneg : d.point ≤ 0
      · exact layout_below h (by omega) hneg
      · exact layout_inside h (by omega) (by omega) (by omega)

/-! ### Values -/

/-- Scaling rounds the decimal that is meant, in the range that layouts show. -/
theorem scaled_eq {value one : Nat} {e : Int} (negative : Bool) (hone : unitsOfOne = one)
    (hpos : 0 < value) (hlt : value < 10 ^ 18) (hrange : -347 ≤ e ∧ e ≤ 313) :
    scaled negative value 10 e
      = roundUnits negative (value * ((tenTo e).1 * one)) (tenTo e).2 := by
  have hlen : bitLength value ≤ 60 := bitLength_le_iff.mpr (by omega)
  unfold scaled tenTo ofRatio
  rw [hone]
  simp only [if_neg hpos.ne', if_true]
  rw [if_neg (by omega), if_neg (by omega)]
  split
  · rw [Nat.one_mul]
  · rw [Nat.mul_assoc]

/-- The decimal that is shown lies in the reading interval with the digits. -/
theorem shown_reads {units one : Nat} {d : Digits} (h : d.Fit units one) :
    InInterval units (d.shown.1 * ((tenTo d.shown.2).1 * one)) (tenTo d.shown.2).2 ∧
      0 < d.shown.1 ∧ d.shown.1 < 10 ^ 18 ∧ -347 ≤ d.shown.2 ∧ d.shown.2 ≤ 313 := by
  have hpos : 0 < d.digits := lt_of_lt_of_le (by positivity) h.low
  have hlt : d.digits < 10 ^ 17 :=
    lt_of_lt_of_le h.high (Nat.pow_le_pow_right (by omega) h.count_le)
  have hrange := h.range
  have hle := h.count_le
  have hone := h.count_pos
  unfold Digits.shown
  split
  · rename_i hw
    obtain ⟨hp, hp6, hc⟩ := hw
    obtain ⟨k, hk⟩ := Int.eq_ofNat_of_zero_le (show 0 ≤ d.point - d.count by omega)
    have hreads := h.reads
    have hten : tenTo (k : Int) = (10 ^ k, 1) := by simp [tenTo]
    have hten0 : tenTo 0 = (1, 1) := rfl
    rw [hk] at hreads ⊢
    rw [hten] at hreads
    have hsmall : d.digits * 10 ^ k < 10 ^ 18 := by
      calc d.digits * 10 ^ k < 10 ^ d.count * 10 ^ k :=
            Nat.mul_lt_mul_of_pos_right h.high (by positivity)
        _ = 10 ^ (d.count + k) := (Nat.pow_add _ _ _).symm
        _ ≤ 10 ^ 18 := Nat.pow_le_pow_right (by omega) (by omega)
    simp only [Int.toNat_natCast, hten0, Nat.one_mul]
    refine ⟨?_, by positivity, hsmall, by omega, by omega⟩
    rw [Nat.mul_assoc]
    exact hreads
  · exact ⟨h.reads, hpos, by simp only; omega, by simp only; omega, by simp only; omega⟩

theorem isInfinite_of_finite {x : Binary64} {negative : Bool} {units : Nat}
    (h : x.classify = .finite negative units) : x.isInfinite = false := by
  simp [isInfinite, h]

/-- The words of infinities. -/
theorem infinity_of_classify {x : Binary64} {negative : Bool}
    (h : x.classify = .infinite negative) : infinity negative = x := by
  have hparts := x.bits_parts
  unfold classify at h
  simp only [Nat.pow_eq] at h
  split at h
  · rename_i hexpo
    split at h
    · rename_i hfrac
      obtain rfl : x.isNegative = negative := Class.infinite.inj h
      unfold infinity
      refine ofSign_eq ?_
      rw [hexpo, hfrac, Nat.add_zero] at hparts
      rw [hparts, Nat.pow_eq]
    · exact absurd h (by simp)
  · split at h
    · exact absurd h (by simp)
    · exact absurd h (by simp)

theorem scaled_zero (negative : Bool) (base : Nat) (e : Int) :
    scaled negative 0 base e = pack negative 0 := by
  rw [scaled, if_pos rfl, pack, if_pos (by simp)]

theorem double_infinities (negative : Bool) :
    Numeral.double? (if negative then ("-Inf" : Text) else "+Inf")
      = .ok (infinity negative) := by
  have hspecial : Numeral.special? (if negative then ("-Inf" : Text) else "+Inf")
      = some (infinity negative) := by
    cases negative
    · rfl
    · rfl
  rw [Numeral.double?, hspecial]

/-- **Texts of doubles read back**, every bit, unless the double is not a number. -/
theorem double_text {x : Binary64} (h : x.classify ≠ .nan) :
    Numeral.double? x.text = .ok x := by
  unfold text
  cases hc : x.classify with
  | nan => exact absurd hc h
  | infinite negative =>
    simp only
    rw [double_infinities, infinity_of_classify hc]
  | finite negative units =>
    obtain ⟨hexact, hpack⟩ := pack_of_classify hc
    have hfin := isInfinite_of_finite hc
    have hsign : (Text.ofString (if negative then "-" else "") : Text)
        = if negative then ("-" : Text) else "" := by
      cases negative <;> rfl
    simp only [hsign]
    by_cases h0 : units = 0
    · have hzero : Decimal ([byte '0'] ++ []) (digitsValue [byte '0']) 0 :=
        decimal_whole (List.all_eq_true.mp (by decide)) (by simp) tail_nil (by simp)
      rw [if_pos h0]
      refine hzero.double negative ?_ hfin
      rw [← hpack, h0]
      exact scaled_zero negative 10 0
    · have hpos : 0 < units := Nat.pos_of_ne_zero h0
      have hfit := shortest_fit hexact hpos
      rw [if_neg h0]
      generalize shortest units = d at hfit ⊢
      obtain ⟨hreads, hv, hlt, hlo, hhi⟩ := shown_reads hfit
      refine (layout_decimal hfit).double negative ?_ hfin
      rw [scaled_eq negative rfl hv hlt ⟨hlo, hhi⟩, ← hpack]
      exact roundUnits_of_inInterval negative hexact hreads

/-- What is not a number reads as the one word for that. -/
theorem double_text_nan {x : Binary64} (h : x.classify = .nan) :
    Numeral.double? x.text = .ok nan := by
  have hspecial : Numeral.special? "NaN" = some nan := rfl
  unfold text
  rw [h]
  simp only
  rw [Numeral.double?, hspecial]

end Binary64

end Reckoner
