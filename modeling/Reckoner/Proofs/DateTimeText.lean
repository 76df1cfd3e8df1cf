import Mathlib.Data.List.DropRight
import Mathlib.Tactic
import Reckoner.Proofs.Calendar
import Reckoner.Proofs.Numeral
import Reckoner.Time.DateTime

/-!
# Points in time read back

A point in time is read back from its text and from its binary form. Both forms have limits: the
text has four digits for the year and two for the hours of the zone, of which the reader takes at
most 24; the binary form has two bytes for the minutes of the zone, and uses minus one of them for
universal time.
-/

namespace Reckoner

namespace DateTime

open Text (isDigit byte digitsValue)

/-! ### Numbers of two and of four digits -/

theorem twoDigits_eq {n : Nat} (h : n < 100) : ∃ a b, twoDigits n = [a, b] ∧
    isDigit a = true ∧ isDigit b = true ∧ (a.toNat - 48) * 10 + (b.toNat - 48) = n := by
  have hlen : (twoDigits n).length = 2 := Text.length_padLeft (by omega) (by simpa using h)
  have hdigits : ∀ b ∈ twoDigits n, isDigit b = true := fun b hb => Text.isDigit_of_mem_padLeft hb
  have hvalue : digitsValue (twoDigits n) = n := Text.digitsValue_padLeft n 2
  obtain ⟨a, b, heq⟩ := List.length_eq_two.mp hlen
  rw [heq] at hdigits hvalue
  refine ⟨a, b, heq, hdigits a (by simp), hdigits b (by simp), ?_⟩
  simpa [Text.digitsValue_cons] using hvalue

theorem readNumber_twoDigits {n : Nat} (h : n < 100) (exact : Bool) (rest : Text) :
    readNumber? exact (twoDigits n ++ rest) = some (n, rest) := by
  obtain ⟨a, b, heq, ha, hb, hvalue⟩ := twoDigits_eq h
  rw [heq, List.cons_append, List.cons_append, List.nil_append, readNumber?, if_pos ha, if_pos hb,
    hvalue]

@[simp] theorem readPart_twoDigits {n : Nat} (h : n < 100) (exact : Bool) (want : String)
    (rest : Text) : readPart exact want (twoDigits n ++ rest) = .ok (n, rest) := by
  rw [readPart, readNumber_twoDigits h]

theorem readYear_yearText {y : Int} (h0 : 0 ≤ y) (h1 : y ≤ 9999) (rest : Text) :
    readYear (yearText y ++ rest) = .ok (y.toNat, rest) := by
  have hlen : (Text.padLeft '0' 4 (Text.ofNat y.natAbs)).length = 4 :=
    Text.length_padLeft (by omega) (by omega)
  have hdigits : ∀ b ∈ Text.padLeft '0' 4 (Text.ofNat y.natAbs), isDigit b = true :=
    fun b hb => Text.isDigit_of_mem_padLeft hb
  have hvalue := Text.digitsValue_padLeft y.natAbs 4
  have htext : yearText y = Text.padLeft '0' 4 (Text.ofNat y.natAbs) := by
    rw [yearText, if_neg (by omega)]
    rfl
  rw [htext]
  generalize Text.padLeft '0' 4 (Text.ofNat y.natAbs) = ds at *
  match ds, hlen with
  | [a, b, c, d], _ =>
    have hall : [a, b, c, d].all isDigit = true := List.all_eq_true.mpr hdigits
    simp only [List.cons_append, List.nil_append, readYear, hall, if_true, hvalue]
    congr 2
    omega

@[simp] theorem readMark_cons (c : Char) (want : String) (rest : Text) :
    readMark c want (byte c :: rest) = .ok rest := by
  rw [readMark, if_pos rfl]

/-! ### Fractions of a second -/

/-- The digits of a fraction, and as many zeros as they lack of nine. -/
theorem nanosText_eq {n : Nat} (h0 : n ≠ 0) (h1 : n < 10 ^ 9) :
    ∃ d ds, nanosText n = byte '.' :: d :: ds ∧
    (∀ b ∈ d :: ds, isDigit b = true) ∧ (d :: ds).length ≤ 9 ∧
    digitsValue (d :: ds) * 10 ^ (9 - (d :: ds).length) = n := by
  have hlen : (Text.padLeft '0' 9 (Text.ofNat n)).length = 9 := Text.length_padLeft (by omega) h1
  have hdigits : ∀ b ∈ Text.padLeft '0' 9 (Text.ofNat n), isDigit b = true :=
    fun b hb => Text.isDigit_of_mem_padLeft hb
  have hvalue := Text.digitsValue_padLeft n 9
  have htext : nanosText n = byte '.'
      :: (Text.padLeft '0' 9 (Text.ofNat n)).rdropWhile (· == byte '0') := by
    rw [nanosText, if_neg h0]
    rfl
  rw [htext]
  generalize Text.padLeft '0' 9 (Text.ofNat n) = full at *
  obtain ⟨zeros, hz⟩ : ∃ k, full.rtakeWhile (· == byte '0') = List.replicate k (byte '0') := by
    refine ⟨_, List.eq_replicate_of_mem fun b hb => ?_⟩
    simpa using List.mem_rtakeWhile_imp hb
  have hsplit := List.rdropWhile_append_rtakeWhile (p := (· == byte '0')) (l := full)
  rw [hz] at hsplit
  generalize full.rdropWhile (· == byte '0') = kept at *
  subst hsplit
  rw [Text.digitsValue_append, Text.digitsValue_zeros, List.length_replicate,
    Nat.add_zero] at hvalue
  rw [List.length_append, List.length_replicate] at hlen
  match kept with
  | [] => exact absurd hvalue (by simp; omega)
  | d :: ds =>
    refine ⟨d, ds, rfl, fun b hb => hdigits b (List.mem_append_left _ hb), by omega, ?_⟩
    rw [show 9 - (d :: ds).length = zeros by omega]
    exact hvalue

/-- Fractions of a second are read back in front of a zone. -/
theorem readNanos_nanosText {n : Nat} (h : n < 10 ^ 9) {z : UInt8} (zone : Text)
    (hz : isDigit z = false ∧ z ≠ byte '.' ∧ z ≠ byte ',') :
    readNanos (nanosText n ++ z :: zone) = (n, z :: zone) := by
  by_cases h0 : n = 0
  · subst h0
    have hempty : nanosText 0 = [] := rfl
    rw [hempty, List.nil_append]
    cases zone with
    | nil => rfl
    | cons y zone =>
      rw [readNanos, if_neg]
      simp [hz.2.1, hz.2.2]
  · obtain ⟨d, ds, htext, hdigits, hlen, hvalue⟩ := nanosText_eq h0 h
    have htake : (d :: ds ++ z :: zone).takeWhile isDigit = d :: ds := by
      rw [List.takeWhile_append_of_pos hdigits]
      simp [hz.1]
    have hdrop : (d :: ds ++ z :: zone).dropWhile isDigit = z :: zone := by
      rw [List.dropWhile_append_of_pos hdigits]
      simp [hz.1]
    have hd : isDigit d = true := hdigits d List.mem_cons_self
    rw [List.cons_append] at htake hdrop
    rw [htext]
    simp only [List.cons_append, readNanos, hd, htake, hdrop, List.take_of_length_le hlen]
    simp only [decide_true, Bool.true_or, Bool.and_self, if_true, Nat.pow_eq, hvalue]

/-! ### Zones -/

/-- The zone of a text is read back. -/
theorem readZone_text {m : Int} (hm : -1500 < m ∧ m < 1500) :
    readZone (zoneText ":" (60 * m)) = .ok (.offset (60 * m), []) := by
  have hmin : (60 * m).tdiv 60 = m := Int.mul_tdiv_cancel_left m (by omega)
  obtain ⟨h1, h2, hh, hh1, hh2, hhour⟩ := twoDigits_eq (n := m.natAbs / 60) (by omega)
  obtain ⟨m1, m2, hmm, hm1, hm2, hminute⟩ := twoDigits_eq (n := m.natAbs % 60) (by omega)
  have htext : zoneText ":" (60 * m)
      = (if m < 0 then byte '-' else byte '+') :: h1 :: h2 :: byte ':' :: m1 :: m2 :: [] := by
    unfold zoneText
    simp only [hmin, hh, hmm]
    split
    · rfl
    · rfl
  have hhour' : readNumber? true [h1, h2] = some (m.natAbs / 60, []) := by
    rw [readNumber?, if_pos hh1, if_pos hh2, hhour]
  have hminute' : readNumber? true [m1, m2] = some (m.natAbs % 60, []) := by
    rw [readNumber?, if_pos hm1, if_pos hm2, hminute]
  have hne : byte '-' ≠ byte '+' := by decide
  rw [htext]
  by_cases hneg : m < 0
  · rw [if_pos hneg, readZone]
    · simp only [ne_eq, not_true_eq_false, if_false, hhour', hminute', hne, if_true]
      rw [if_neg (by omega), if_neg (by omega)]
      congr 3
      omega
    · decide
  · rw [if_neg hneg, readZone]
    · simp only [ne_eq, not_true_eq_false, if_false, hhour', hminute', if_true]
      rw [if_neg (by omega), if_neg (by omega)]
      congr 3
      omega
    · decide

theorem zoneText_cons (s : Int) : ∃ b rest, (b = byte '-' ∨ b = byte '+') ∧
    zoneText ":" s = b :: rest := by
  unfold zoneText
  simp only
  split
  · exact ⟨byte '-', _, .inl rfl, rfl⟩
  · exact ⟨byte '+', _, .inr rfl, rfl⟩

/-- The zone at the end of a text starts with no digit and is read back. -/
theorem zone_text {z : Zone} {m : Int} (hzone : z.seconds = 60 * m) (hm : -1500 < m ∧ m < 1500) :
    ∃ b rest, (if z.seconds = 0 then ("Z" : Text) else zoneText ":" z.seconds) = b :: rest ∧
      (isDigit b = false ∧ b ≠ byte '.' ∧ b ≠ byte ',') ∧
      readZone (b :: rest) = .ok (if m = 0 then .utc else .offset (60 * m), []) := by
  by_cases h0 : m = 0
  · refine ⟨90, [], ?_, by decide, ?_⟩
    · rw [if_pos (by omega)]
      rfl
    · rw [if_pos h0]
      rfl
  · obtain ⟨b, rest, hb, htext⟩ := zoneText_cons (60 * m)
    rw [if_neg (by omega), hzone, if_neg h0, ← readZone_text hm, htext]
    refine ⟨b, rest, rfl, ?_, rfl⟩
    rcases hb with rfl | rfl
    · decide
    · decide

/-! ### The text -/

/-- A point in time as a clock of 64 bits gives it, in a year of four digits. -/
structure Timely (t : DateTime) : Prop where
  /-- The seconds are a number of 64 bits. -/
  seconds_range : -2 ^ 63 ≤ t.seconds ∧ t.seconds < 2 ^ 63
  /-- The nanoseconds are less than a second. -/
  nanos_lt : t.nanos < 10 ^ 9
  /-- The year has four digits, as the zone shows it. -/
  year_range : 0 ≤ t.civil.1.year ∧ t.civil.1.year ≤ 9999

/-- The local date and time of a timely point; nothing wraps around. -/
theorem civil_eq {t : DateTime} (h : t.Timely) (hz : t.zone.seconds.natAbs < 2 ^ 31) :
    ∃ s : Int, s = t.seconds + t.zone.seconds ∧
      t.civil = (Date.ofDayNumber (s / 86400), (s % 86400).toNat) := by
  refine ⟨_, rfl, ?_⟩
  have hyear := h.year_range
  have hsec := h.seconds_range
  unfold civil at hyear ⊢
  simp only [Int.fdiv_eq_ediv_of_nonneg _ (show (0 : Int) ≤ 86400 by omega),
    Int.fmod_eq_emod_of_nonneg _ (show (0 : Int) ≤ 86400 by omega), epochShift, Nat.pow_eq]
    at hyear ⊢
  obtain ⟨hlo, hhi⟩ := Date.dayNumber_range hyear.1 hyear.2
  have hs : (t.seconds + t.zone.seconds + 9223371966579724800) % ((2 ^ 64 : Nat) : Int)
      - 9223371966579724800 = t.seconds + t.zone.seconds := by
    norm_num at hlo hhi hsec ⊢
    omega
  rw [hs]

/-- The clock of a day is shown in parts that add up. -/
theorem clock_parts {s : Nat} (h : s < 86400) :
    s / 3600 < 24 ∧ s / 3600 * 3600 + s / 60 % 60 * 60 + s % 60 = s := by
  omega

/-- The parts in front of the zone are read back; what is left to read is the zone. -/
theorem read_parts {d : Date} {clock nanos : Nat} (hyear : 0 ≤ d.year ∧ d.year ≤ 9999)
    (hvalid : d.Valid) (hclock : clock < 86400) (hnanos : nanos < 10 ^ 9) {z : UInt8} (zone : Text)
    (hz : isDigit z = false ∧ z ≠ byte '.' ∧ z ≠ byte ',') :
    read (dateText d ++ "T" ++ clockText clock ++ nanosText nanos ++ z :: zone) =
      match readZone (z :: zone) with
      | .error e => .error e
      | .ok (zone, rest) =>
        if rest.isEmpty then .ok (ofCivil d clock nanos zone) else .error (.extra rest) := by
  obtain ⟨hmp, hm12, hdp, hday⟩ := hvalid
  obtain ⟨hhour, hparts⟩ := clock_parts hclock
  have hday31 : d.day < 100 := by have := Date.daysIn_le d.month d.year; omega
  have hdash : ∀ rest, ("-" : Text) ++ rest = byte '-' :: rest := fun _ => rfl
  have hT : ∀ rest, ("T" : Text) ++ rest = byte 'T' :: rest := fun _ => rfl
  have hcolon : ∀ rest, (":" : Text) ++ rest = byte ':' :: rest := fun _ => rfl
  simp only [dateText, clockText, List.append_assoc]
  unfold read
  rw [readYear_yearText hyear.1 hyear.2]
  simp only [hdash, hT, hcolon, bind, Except.bind, readMark_cons,
    readPart_twoDigits (show d.month < 100 by omega), readPart_twoDigits hday31,
    readPart_twoDigits (show clock / 3600 < 100 by omega),
    readPart_twoDigits (show clock / 60 % 60 < 100 by omega),
    readPart_twoDigits (show clock % 60 < 100 by omega), readNanos_nanosText hnanos zone hz]
  have hyearNat : (d.year.toNat : Int) = d.year := Int.toNat_of_nonneg hyear.1
  have hmonthOk : (decide (d.month = 0) || decide (12 < d.month)) = false := by
    simp only [Bool.or_eq_false_iff, decide_eq_false_iff_not]
    omega
  have hdayOk : (decide (d.day = 0) || decide (Date.daysIn d.month d.year < d.day)) = false := by
    simp only [Bool.or_eq_false_iff, decide_eq_false_iff_not]
    omega
  simp only [hyearNat, hmonthOk, hdayOk, Bool.false_eq_true, if_false, hparts,
    if_neg (not_le.mpr hhour), if_neg (show ¬ 60 ≤ clock / 60 % 60 by omega),
    if_neg (show ¬ 60 ≤ clock % 60 by omega)]
  rcases readZone (z :: zone) with e | ⟨zone, rest⟩
  · rfl
  · cases rest with
    | nil => rfl
    | cons b rest => rfl

/-- The text of a point in time ends with its zone, and the parts in front of it can be read. -/
theorem text_parts {t : DateTime} (hnanos : t.nanos < 10 ^ 9)
    (hyear : 0 ≤ t.civil.1.year ∧ t.civil.1.year ≤ 9999) {z : UInt8} {zone : Text}
    (htext : (if t.zone.seconds = 0 then ("Z" : Text) else zoneText ":" t.zone.seconds) = z :: zone)
    (hz : isDigit z = false ∧ z ≠ byte '.' ∧ z ≠ byte ',') :
    read t.text = match readZone (z :: zone) with
      | .error e => .error e
      | .ok (zone, rest) =>
        if rest.isEmpty then .ok (ofCivil t.civil.1 t.civil.2 t.nanos zone)
        else .error (.extra rest) := by
  have hvalid : t.civil.1.Valid := Date.valid_ofDayNumber _
  have hclock : t.civil.2 < 86400 := by
    unfold civil
    simp only [Int.fmod_eq_emod_of_nonneg _ (show (0 : Int) ≤ 86400 by omega)]
    omega
  rw [← read_parts hyear hvalid hclock hnanos zone hz, ← htext]
  rfl

/-- **Texts of points in time read back**: the same instant in a zone of the same distance, which
is universal time if there is none. -/
theorem read_text {t : DateTime} {m : Int} (h : t.Timely) (hzone : t.zone.seconds = 60 * m)
    (hm : -1500 < m ∧ m < 1500) :
    read t.text = .ok ⟨t.seconds, t.nanos, if m = 0 then .utc else .offset (60 * m)⟩ := by
  obtain ⟨s, hs, hcivil⟩ := civil_eq h (by rw [hzone]; omega)
  obtain ⟨z, zone, hz, hfirst, hread⟩ := zone_text hzone hm
  rw [text_parts h.nanos_lt h.year_range hz hfirst, hread, hcivil]
  have hnumber := Date.dayNumber_ofDayNumber (s / 86400)
  have hdist : (if m = 0 then Zone.utc else Zone.offset (60 * m)).seconds = 60 * m := by
    split
    · next h0 => simp [Zone.seconds, h0]
    · rfl
  have hseconds : (Date.ofDayNumber (s / 86400)).dayNumber * 86400 + (s % 86400).toNat - 60 * m
      = t.seconds := by
    rw [hnumber]
    omega
  simp only [List.isEmpty_nil, if_true, ofCivil, hdist, hseconds]

/-! ### The binary form -/

@[simp] theorem length_bigEndian (count n : Nat) : (bigEndian count n).length = count := by
  induction count generalizing n with
  | zero => rfl
  | succ count ih => rw [bigEndian, List.length_append, ih, List.length_singleton]

theorem ofBigEndian_bigEndian (count n : Nat) :
    ofBigEndian (bigEndian count n) = n % 256 ^ count := by
  induction count generalizing n with
  | zero => simp [bigEndian, ofBigEndian, Nat.mod_one]
  | succ count ih =>
    have hlast : (n % 256).toUInt8.toNat = n % 256 := by simp [Nat.toUInt8]
    have ih' := ih (n / 256)
    unfold ofBigEndian at ih' ⊢
    rw [bigEndian, List.foldl_append, ih']
    simp only [List.foldl_cons, List.foldl_nil, hlast]
    rw [Nat.pow_succ', Nat.mod_mul, Nat.add_comm]

/-- A signed number of some whole bytes is read back. -/
theorem twosComplement {bits count : Nat} {n : Int} (hbits : bits = 8 * count) (hpos : 0 < count)
    (hlo : -2 ^ (bits - 1) ≤ n) (hhi : n < 2 ^ (bits - 1)) :
    ofTwosComplement bits (ofBigEndian (bigEndian count (toTwosComplement bits n))) = n := by
  have hpow : (256 : Nat) ^ count = 2 ^ bits := by
    rw [hbits, Nat.pow_mul]
  obtain ⟨k, rfl⟩ : ∃ k, bits = k + 1 := ⟨bits - 1, by omega⟩
  rw [Nat.add_sub_cancel] at hlo hhi
  have hdouble : (2 : Int) ^ (k + 1) = 2 * 2 ^ k := by rw [pow_succ, mul_comm]
  have hhalf : (0 : Int) < 2 ^ k := by positivity
  have hcast : ((2 ^ k : Nat) : Int) = 2 ^ k := by push_cast; rfl
  have hcast' : ((2 ^ (k + 1) : Nat) : Int) = 2 * 2 ^ k := by rw [Nat.pow_succ]; push_cast; ring
  rw [ofBigEndian_bigEndian, hpow]
  unfold ofTwosComplement toTwosComplement
  simp only [Nat.pow_eq, Nat.add_sub_cancel, hcast']
  by_cases hneg : n < 0
  · have hmod : n % (2 * 2 ^ k) = n + 2 * 2 ^ k := by
      rw [← Int.add_emod_right, Int.emod_eq_of_lt (by omega) (by omega)]
    rw [hmod, Nat.mod_eq_of_lt (by omega), if_pos (by omega)]
    omega
  · have hmod : n % (2 * 2 ^ k) = n := Int.emod_eq_of_lt (by omega) (by omega)
    rw [hmod, Nat.mod_eq_of_lt (by omega), if_neg (by omega)]
    omega

/-- The binary form of the first version, taken apart. -/
theorem unpack_parts {a b z : Text} {minutes : Int} {nanos : Nat} (ha : a.length = 8)
    (hb : b.length = 4) (hz : z.length = 2) (hn : nanos < 10 ^ 9)
    (hnanos : ofTwosComplement 32 (ofBigEndian b) = nanos)
    (hminutes : ofTwosComplement 16 (ofBigEndian z) = minutes) :
    unpack (1 :: (a ++ b ++ z)) = .ok ⟨ofTwosComplement 64 (ofBigEndian a), nanos,
      if minutes = -1 then .utc else .offset (60 * minutes)⟩ := by
  have hlen : (a ++ b ++ z).length = 14 := by simp only [List.length_append]; omega
  have h1 : (a ++ b ++ z).take 8 = a := by
    rw [List.append_assoc, List.take_append_of_le_length (by omega),
      List.take_of_length_le (by omega)]
  have h2 : ((a ++ b ++ z).drop 8).take 4 = b := by
    rw [List.append_assoc, ← ha, List.drop_left, ← hb, List.take_left]
  have h3 : ((a ++ b ++ z).drop 12).take 2 = z := by
    have h12 : 12 = (a ++ b).length := by rw [List.length_append]; omega
    rw [h12, List.drop_left, ← hz, List.take_length]
  have h4 : (a ++ b ++ z).drop 14 = [] := List.drop_eq_nil_of_le (by omega)
  have hempty : ((ofBigEndian [] : Nat) : Int) = 0 := rfl
  have hwall : toTwosComplement 64 (nanos : Int) % 2 ^ 30 = nanos := by
    have h64 : (nanos : Int) % ((2 ^ 64 : Nat) : Int) = nanos :=
      Int.emod_eq_of_lt (by omega) (by norm_num; omega)
    rw [toTwosComplement, Nat.pow_eq, h64, Int.toNat_natCast, Nat.mod_eq_of_lt (by omega)]
  have hzone : (if 60 * minutes = -60 then Zone.utc else Zone.offset (60 * minutes))
      = if minutes = -1 then .utc else .offset (60 * minutes) := by
    by_cases hm : minutes = -1
    · rw [if_pos hm, if_pos (by omega)]
    · rw [if_neg hm, if_neg (by omega)]
  unfold unpack
  simp only [ne_eq, not_true_eq_false, decide_false, Bool.false_and, Bool.false_eq_true, if_false,
    hlen, if_true, h1, h2, h3, h4, hnanos, hminutes, hempty, add_zero, storedInstant,
    Int.natCast_nonneg, Nat.pow_eq, hwall]
  rw [mul_comm minutes 60, hzone]

/-- **Binary forms of points in time read back**, in zones of whole minutes. -/
theorem unpack_pack {t : DateTime} (hsec : -2 ^ 63 ≤ t.seconds ∧ t.seconds < 2 ^ 63)
    (hn : t.nanos < 10 ^ 9)
    (hzone : t.zone = .utc ∨
      ∃ m : Int, t.zone = .offset (60 * m) ∧ -32768 ≤ m ∧ m ≤ 32767 ∧ m ≠ -1) :
    ∃ bytes, t.pack? = some bytes ∧ bytes.length = 15 ∧ unpack bytes = .ok t := by
  obtain ⟨seconds, nanos, zone⟩ := t
  simp only at hsec hn hzone
  have hseconds : ofTwosComplement 64 (ofBigEndian (bigEndian 8 (toTwosComplement 64 seconds)))
      = seconds := twosComplement (by norm_num) (by norm_num) (by simpa using hsec.1)
        (by simpa using hsec.2)
  have hnanos : ofTwosComplement 32 (ofBigEndian (bigEndian 4 nanos)) = nanos := by
    rw [ofBigEndian_bigEndian, Nat.mod_eq_of_lt (by omega), ofTwosComplement, if_neg]
    simp only [Nat.pow_eq]
    omega
  rcases hzone with rfl | ⟨m, rfl, hlo, hhi, hne⟩
  · refine ⟨_, rfl, by simp, ?_⟩
    have hparts := unpack_parts (length_bigEndian 8 (toTwosComplement 64 seconds))
      (length_bigEndian 4 nanos) (show [0xff, 0xff].length = 2 from rfl) hn hnanos
      (show ofTwosComplement 16 (ofBigEndian [0xff, 0xff]) = -1 from rfl)
    rw [hseconds] at hparts
    exact hparts
  · have hmin : (60 * m).tdiv 60 = m := Int.mul_tdiv_cancel_left m (by omega)
    have hrem : (60 * m).tmod 60 = 0 := Int.mul_tmod_right 60 m
    have hminutes : ofTwosComplement 16 (ofBigEndian (bigEndian 2 (toTwosComplement 16 m))) = m :=
      twosComplement (by norm_num) (by norm_num) (by norm_num; omega) (by norm_num; omega)
    have hrange : (decide (m < -32768) || decide (m = -1) || decide (32767 < m)) = false := by
      simp only [Bool.or_eq_false_iff, decide_eq_false_iff_not]
      omega
    have hparts := unpack_parts (length_bigEndian 8 (toTwosComplement 64 seconds))
      (length_bigEndian 4 nanos) (length_bigEndian 2 (toTwosComplement 16 m)) hn hnanos hminutes
    rw [hseconds, if_neg hne] at hparts
    unfold pack?
    simp only [hmin, hrem, hrange, Bool.false_eq_true, if_false, if_true]
    exact ⟨_, rfl, by simp, hparts⟩

end DateTime

end Reckoner
