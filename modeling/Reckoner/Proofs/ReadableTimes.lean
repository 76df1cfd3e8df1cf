import Mathlib.Tactic
import Reckoner.Proofs.Records

/-!
# Points in time that are read back

A text shows the year and the hours of the zone with as many digits as they take, but its reader
takes four digits for the year and at most 24 hours. So of the points in time in zones of whole
minutes, just those in the years 0 to 9999 and less than 25 hours from universal time are read
back. The binary form is read back whenever there is one.

A span that is added can take a point in time out of these years, but never out of its clock.
-/

namespace Reckoner

namespace DateTime

open Text (isDigit byte)

variable {t : DateTime} {m : Int}

/-- The reader of texts takes the year and the zone. -/
structure Recoverable (t : DateTime) : Prop where
  /-- The year has four digits. -/
  year_range : 0 ≤ t.civil.1.year ∧ t.civil.1.year ≤ 9999
  /-- The zone is less than 25 hours from universal time. -/
  zone_lt : t.zone.seconds.natAbs < 90000

instance (t : DateTime) : Decidable t.Recoverable :=
  decidable_of_iff ((0 ≤ t.civil.1.year ∧ t.civil.1.year ≤ 9999) ∧ t.zone.seconds.natAbs < 90000)
    ⟨fun h => ⟨h.1, h.2⟩, fun h => ⟨h.1, h.2⟩⟩

/-! ### Years -/

theorem readYear_mismatch {b : UInt8} (hb : isDigit b = false) (rest : Text) :
    readYear (b :: rest) = .error (.mismatch (b :: rest) "2006") := by
  rcases rest with _ | ⟨c, _ | ⟨d, _ | ⟨e, rest⟩⟩⟩
  iterate 3 · rfl
  simp [readYear, hb]

/-- More than four digits of a year end where the reader wants a dash. -/
theorem yearText_long {y : Int} (hy : 9999 < y) : ∃ a b c d e rest,
    yearText y = a :: b :: c :: d :: e :: rest ∧
      [a, b, c, d].all isDigit = true ∧ e ≠ byte '-' := by
  have htext : yearText y = Text.padLeft '0' 4 (Text.ofNat y.natAbs) := by
    rw [yearText, if_neg (by omega)]
    rfl
  have hlen : 5 ≤ (yearText y).length := by
    have hofNat : ¬ (Text.ofNat y.natAbs).length ≤ 4 := by
      rw [Text.length_ofNat_le_iff (by omega)]
      omega
    rw [htext, Text.padLeft, List.length_append]
    omega
  have hdigits : ∀ b ∈ yearText y, isDigit b = true := by
    intro b hb
    rw [htext] at hb
    exact Text.isDigit_of_mem_padLeft hb
  rcases hyear : yearText y with _ | ⟨a, _ | ⟨b, _ | ⟨c, _ | ⟨d, _ | ⟨e, rest⟩⟩⟩⟩⟩
  iterate 5 · simp [hyear] at hlen
  rw [hyear] at hdigits
  simp only [List.forall_mem_cons] at hdigits
  obtain ⟨ha, hb, hc, hd, he, -⟩ := hdigits
  refine ⟨a, b, c, d, e, rest, rfl, by simp [ha, hb, hc, hd], ?_⟩
  rintro rfl
  exact absurd he (by decide)

/-- The text of a year that is not one of four digits is refused. -/
theorem read_farYear {d : Date} (hd : d.year < 0 ∨ 9999 < d.year) (rest : Text) :
    ∃ e, read (dateText d ++ rest) = .error e := by
  unfold read
  rcases hd with hneg | hlong
  · obtain ⟨digits, hyear⟩ : ∃ digits, yearText d.year = byte '-' :: digits := by
      rw [yearText, if_pos hneg]
      exact ⟨_, rfl⟩
    simp only [dateText, hyear, List.cons_append,
      readYear_mismatch (show isDigit (byte '-') = false by decide)]
    exact ⟨_, rfl⟩
  · obtain ⟨a, b, c, d', e, digits, hyear, hall, hdash⟩ := yearText_long hlong
    simp only [dateText, hyear, List.cons_append, readYear, hall, if_true, bind, Except.bind,
      readMark, if_neg hdash]
    exact ⟨_, rfl⟩

/-! ### Zones -/

/-- A zone of twenty-five hours or more is refused, be it for its hours or for having more than
two digits of them. -/
theorem readZone_far (hm : m ≤ -1500 ∨ 1500 ≤ m) :
    ∃ e, readZone (zoneText ":" (60 * m)) = .error e := by
  have hmin : (60 * m).tdiv 60 = m := Int.mul_tdiv_cancel_left m (by omega)
  obtain ⟨sign, htext, hsign⟩ : ∃ sign, zoneText ":" (60 * m) =
      sign :: (twoDigits (m.natAbs / 60) ++ byte ':' :: twoDigits (m.natAbs % 60)) ∧
      sign ≠ 90 := by
    by_cases hneg : m < 0
    · exact ⟨byte '-', by simp only [zoneText, hmin, if_pos hneg, List.append_assoc]; rfl,
        by decide⟩
    · exact ⟨byte '+', by simp only [zoneText, hmin, if_neg hneg, List.append_assoc]; rfl,
        by decide⟩
  obtain ⟨m1, m2, hmm, hm1, hm2, hminute⟩ := twoDigits_eq (n := m.natAbs % 60) (by omega)
  rw [htext, hmm]
  by_cases hshort : m.natAbs / 60 < 100
  · obtain ⟨h1, h2, hh, hh1, hh2, hhour⟩ := twoDigits_eq hshort
    have hhour' : readNumber? true [h1, h2] = some (m.natAbs / 60, []) := by
      rw [readNumber?, if_pos hh1, if_pos hh2, hhour]
    have hminute' : readNumber? true [m1, m2] = some (m.natAbs % 60, []) := by
      rw [readNumber?, if_pos hm1, if_pos hm2, hminute]
    rw [hh, List.cons_append, List.cons_append, List.nil_append, readZone]
    · simp only [ne_eq, not_true_eq_false, if_false, hhour', hminute']
      rw [if_neg (by omega), if_pos (by omega)]
      exact ⟨_, rfl⟩
    · exact hsign
  · have hlen : 3 ≤ (twoDigits (m.natAbs / 60)).length := by
      have hofNat : ¬ (Text.ofNat (m.natAbs / 60)).length ≤ 2 := by
        rw [Text.length_ofNat_le_iff (by omega)]
        omega
      rw [twoDigits, Text.padLeft, List.length_append]
      omega
    have hdigits : ∀ b ∈ twoDigits (m.natAbs / 60), isDigit b = true :=
      fun b hb => Text.isDigit_of_mem_padLeft hb
    rcases hhours : twoDigits (m.natAbs / 60) with _ | ⟨a, _ | ⟨b, _ | ⟨c, digits⟩⟩⟩
    iterate 3 · simp [hhours] at hlen
    have hcolon : c ≠ byte ':' := by
      have hc : isDigit c = true := hdigits c (by simp [hhours])
      rintro rfl
      exact absurd hc (by decide)
    obtain ⟨x, y, rest, hrest⟩ : ∃ x y rest, digits ++ byte ':' :: [m1, m2] = x :: y :: rest := by
      rcases digits with _ | ⟨d, _ | ⟨e, digits⟩⟩
      iterate 3 · exact ⟨_, _, _, rfl⟩
    rw [List.cons_append, List.cons_append, List.cons_append, hrest, readZone]
    · rw [if_pos hcolon]
      exact ⟨_, rfl⟩
    · exact hsign

/-! ### Texts -/

theorem Recoverable.minutes (h : t.Recoverable) (hzone : t.zone.seconds = 60 * m) :
    -1500 < m ∧ m < 1500 := by
  have := h.zone_lt
  omega

/-- What cannot be read is refused. -/
theorem read_unrecoverable (hnanos : t.nanos < 10 ^ 9) (hzone : t.zone.seconds = 60 * m)
    (ht : ¬ t.Recoverable) : ∃ e, read t.text = .error e := by
  by_cases hyear : 0 ≤ t.civil.1.year ∧ t.civil.1.year ≤ 9999
  · have hm : m ≤ -1500 ∨ 1500 ≤ m := by
      by_contra hnear
      exact ht ⟨hyear, by omega⟩
    obtain ⟨z, zone, hz, hcons⟩ := zoneText_cons (60 * m)
    have hshown : (if t.zone.seconds = 0 then ("Z" : Text) else zoneText ":" t.zone.seconds)
        = z :: zone := by
      rw [if_neg (by omega), hzone, hcons]
    have hfirst : isDigit z = false ∧ z ≠ byte '.' ∧ z ≠ byte ',' := by
      rcases hz with rfl | rfl <;> decide
    obtain ⟨e, he⟩ := readZone_far hm
    rw [text_parts hnanos hyear hshown hfirst, ← hcons, he]
    exact ⟨e, rfl⟩
  · have htext : t.text = dateText t.civil.1 ++ ("T" ++ clockText t.civil.2 ++ nanosText t.nanos
        ++ (if t.zone.seconds = 0 then ("Z" : Text) else zoneText ":" t.zone.seconds)) := by
      simp only [text, List.append_assoc]
    rw [htext]
    exact read_farYear (by omega) _

/-- **A text keeps just the points in time that can be read.** -/
theorem kept_lines_iff (hseconds : -2 ^ 63 ≤ t.seconds ∧ t.seconds < 2 ^ 63)
    (hnanos : t.nanos < 10 ^ 9) (hzone : t.zone.seconds = 60 * m) :
    t.Kept .lines ↔ t.Recoverable := by
  constructor
  · intro hkept
    by_contra hfar
    obtain ⟨e, he⟩ := read_unrecoverable hnanos hzone hfar
    have hread : read t.text = .ok (t.normal .lines) := hkept
    rw [hread] at he
    cases he
  · intro ht
    exact read_normal ⟨hseconds, hnanos, ht.year_range⟩ hzone (ht.minutes hzone)

/-! ### Binary forms -/

/-- **A binary form is read back** whenever there is one. -/
theorem kept_packed (hseconds : -2 ^ 63 ≤ t.seconds ∧ t.seconds < 2 ^ 63)
    (hnanos : t.nanos < 10 ^ 9) (hzone : t.zone.seconds = 60 * m) (hpack : t.pack?.isSome) :
    t.Kept .packed := by
  have hrange : t.zone = .utc ∨
      ∃ m : Int, t.zone = .offset (60 * m) ∧ -32768 ≤ m ∧ m ≤ 32767 ∧ m ≠ -1 := by
    cases hz : t.zone with
    | utc => exact .inl rfl
    | offset s =>
      rw [hz] at hzone
      obtain rfl : s = 60 * m := hzone
      have hmin : (60 * m).tdiv 60 = m := Int.mul_tdiv_cancel_left m (by omega)
      refine .inr ⟨m, rfl, ?_⟩
      by_contra hout
      have hnone : t.pack? = none := by
        unfold pack?
        simp only [hz, hmin]
        refine if_pos ?_
        simp only [Bool.or_eq_true, decide_eq_true_eq]
        omega
      rw [hnone] at hpack
      cases hpack
  obtain ⟨bytes, hbytes, hlen, hread⟩ := unpack_pack hseconds hnanos hrange
  exact ⟨bytes, hbytes, by omega, hread⟩

/-- **A point in time that can be written is kept**, in a text if it can be read. -/
theorem kept_iff {layout : Layout} (hseconds : -2 ^ 63 ≤ t.seconds ∧ t.seconds < 2 ^ 63)
    (hnanos : t.nanos < 10 ^ 9) (hzone : t.zone.seconds = 60 * m)
    (hpack : layout = .packed → t.pack?.isSome) :
    t.Kept layout ↔ (layout = .lines → t.Recoverable) := by
  cases layout with
  | lines => simpa using kept_lines_iff hseconds hnanos hzone
  | packed => simpa using kept_packed hseconds hnanos hzone (hpack rfl)

/-- What is read back is the same instant. -/
theorem same_normal (t : DateTime) (layout : Layout) : (t.normal layout).same t := by
  unfold normal
  split
  · simp [same]
  · simp [same]

/-! ### Sums -/

theorem clampSeconds_range (s : Int) : -2 ^ 63 ≤ clampSeconds s ∧ clampSeconds s < 2 ^ 63 := by
  unfold clampSeconds
  simp only [Nat.pow_eq]
  split
  · norm_num
  · split
    · norm_num
    · norm_num at *
      omega

theorem seconds_add_range (t : DateTime) (span : Int64) :
    -2 ^ 63 ≤ (t.add span).seconds ∧ (t.add span).seconds < 2 ^ 63 :=
  clampSeconds_range _

/-- A sum is within its second. -/
theorem nanos_add_lt (ht : t.nanos < 10 ^ 9) (span : Int64) : (t.add span).nanos < 10 ^ 9 := by
  have hlow : -1000000000 < span.toInt.tmod 1000000000 := Int.lt_tmod_of_pos _ (by omega)
  have hhigh : span.toInt.tmod 1000000000 < 1000000000 := Int.tmod_lt_of_pos _ (by omega)
  unfold add
  simp only
  split
  · simp only
    omega
  · split
    · simp only
      omega
    · simp only
      omega

end DateTime

end Reckoner
