import Mathlib.Tactic
import Reckoner.Stream.Decoder

/-!
# Tokens read back

The smallest pieces of a stream, each read back from what was written whatever follows it:
numbers of variable length, fixed numbers of bytes, sized texts, and the escaped tokens of lines.
An escaped token holds no tab and no line break, so lines and tokens can be divided by them.
-/

namespace Reckoner

/-! ### Numbers of variable length -/

namespace Varint

theorem toNat_toUInt8 {n : Nat} (h : n < 256) : n.toUInt8.toNat = n := by
  simp only [Nat.toUInt8, UInt8.toNat_ofNat']
  omega

/-- A number is read back from the byte with number `index` on, if it has the bytes that are left
of ten and all of it stays below `2 ^ 64`. -/
theorem decodeFrom_encodeFrom (rest : Text) : ∀ more index soFar n : Nat, index + more = 9 →
    n * 128 ^ index < 2 ^ 64 →
    decodeFrom (more + 1) index soFar (encodeFrom more n ++ rest)
      = .value (soFar + n * 128 ^ index) rest := by
  intro more
  induction more with
  | zero =>
    intro index soFar n hi hn
    obtain rfl : index = 9 := by omega
    have hn1 : n ≤ 1 := by omega
    have hb : n.toUInt8.toNat = n := toNat_toUInt8 (by omega)
    have hlt : n.toUInt8 < 128 := by rw [UInt8.lt_iff_toNat_lt, hb]; simp; omega
    have hle : ¬ (1 : UInt8) < n.toUInt8 := by rw [UInt8.lt_iff_toNat_lt, hb]; simp; omega
    simp [encodeFrom, decodeFrom, hlt, hle, hb]
  | succ more ih =>
    intro index soFar n hi hn
    by_cases h : n < 128
    · have hb : n.toUInt8.toNat = n := toNat_toUInt8 (by omega)
      have hlt : n.toUInt8 < 128 := by rw [UInt8.lt_iff_toNat_lt, hb]; simpa using h
      have hne : index ≠ 9 := by omega
      simp [encodeFrom, decodeFrom, h, hlt, hne, hb]
    · have hb : (n % 128 + 128).toUInt8.toNat = n % 128 + 128 := toNat_toUInt8 (by omega)
      have hge : ¬ (n % 128 + 128).toUInt8 < 128 := by
        rw [UInt8.lt_iff_toNat_lt, hb]; simp
      have hsplit : n * 128 ^ index = n % 128 * 128 ^ index + n / 128 * 128 ^ (index + 1) := by
        have hd : n = n % 128 + 128 * (n / 128) := (Nat.mod_add_div n 128).symm
        calc n * 128 ^ index = (n % 128 + 128 * (n / 128)) * 128 ^ index := by rw [← hd]
          _ = n % 128 * 128 ^ index + n / 128 * 128 ^ (index + 1) := by ring
      have hrec := ih (index + 1) (soFar + n % 128 * 128 ^ index) (n / 128) (by omega) (by omega)
      simp only [encodeFrom, h, if_false, List.cons_append, decodeFrom, hge, hb,
        Nat.add_sub_cancel, Nat.pow_eq]
      rw [hrec, hsplit, Nat.add_assoc]

/-- A number of 64 bits is read back, and what follows it is left. -/
theorem decode_encode {n : Nat} (h : n < 2 ^ 64) (rest : Text) :
    decode (encode n ++ rest) = .value n rest := by
  have := decodeFrom_encodeFrom rest 9 0 0 n rfl (by simpa using h)
  simpa [decode, encode] using this

theorem encode_ne_nil (n : Nat) : encode n ≠ [] := by
  unfold encode encodeFrom
  split <;> simp

/-- A number below 128 is one byte. -/
theorem encode_small {n : Nat} (h : n < 128) : encode n = [n.toUInt8] := by
  simp [encode, encodeFrom, h]

theorem fold_lt (n : Int64) : fold n < 2 ^ 64 := by
  have h1 := n.le_toInt
  have h2 := n.toInt_lt
  unfold fold
  split
  · omega
  · have hnn : 0 ≤ n.toInt := by simpa [Int64.lt_iff_toInt_lt] using ‹¬ n < 0›
    omega

/-- Folding loses nothing. -/
theorem unfold_fold (n : Int64) : unfold (fold n) = n := by
  have h1 := n.le_toInt
  have h2 := n.toInt_lt
  apply Int64.toInt_inj.mp
  unfold fold
  by_cases h : n < 0
  · have hneg : n.toInt < 0 := by simpa [Int64.lt_iff_toInt_lt] using h
    have hodd : (2 * n.toInt.natAbs - 1) % 2 ≠ 0 := by omega
    have hval : -(((2 * n.toInt.natAbs - 1) / 2 : Nat) : Int) - 1 = n.toInt := by omega
    rw [if_pos h, unfold, if_neg hodd, hval, Int64.ofInt_toInt]
  · have hnn : 0 ≤ n.toInt := by simpa [Int64.lt_iff_toInt_lt] using h
    have heven : (2 * n.toInt.natAbs) % 2 = 0 := by omega
    have hval : (((2 * n.toInt.natAbs) / 2 : Nat) : Int) = n.toInt := by omega
    rw [if_neg h, unfold, if_pos heven, hval, Int64.ofInt_toInt]

end Varint

/-! ### Fixed numbers of bytes -/

namespace Record

@[simp] theorem length_littleEndian (count n : Nat) : (littleEndian count n).length = count := by
  induction count generalizing n with
  | zero => rfl
  | succ count ih => simp [littleEndian, ih]

theorem ofLittleEndian_littleEndian (count n : Nat) :
    Packed.ofLittleEndian (littleEndian count n) = n % 256 ^ count := by
  induction count generalizing n with
  | zero => simp [littleEndian, Packed.ofLittleEndian, Nat.mod_one]
  | succ count ih =>
    have ih' := ih (n / 256)
    simp only [Packed.ofLittleEndian] at ih'
    have hb : n.toUInt8.toNat = n % 256 := by simp [Nat.toUInt8]
    simp only [littleEndian, Packed.ofLittleEndian, List.foldr_cons, ih', hb]
    rw [Nat.pow_succ', Nat.mod_mul]

end Record

/-! ### Reading from packed streams -/

namespace Packed

theorem varint_encode {n : Nat} (h : n < 2 ^ 64) (what rest : Text) (e : Option Error) :
    varint what ⟨Varint.encode n ++ rest, e⟩ = (.ok n, ⟨rest, e⟩) := by
  simp [varint, Varint.decode_encode h]

theorem take_append (what t rest : Text) (e : Option Error) :
    take what t.length ⟨t ++ rest, e⟩ = (.ok t, ⟨rest, e⟩) := by
  simp [take]

/-- A text with its length in front is read back. -/
theorem sized_packedText {t : Text} (h : t.length ≤ 2 ^ 28) (what rest : Text) (e : Option Error) :
    sized what ⟨Record.packedText t ++ rest, e⟩ = (.ok t, ⟨rest, e⟩) := by
  have hmax : ¬ maxToken < t.length := by simp only [maxToken, Nat.pow_eq]; omega
  rw [sized, Record.packedText, List.append_assoc, varint_encode (by omega)]
  simp only [Step.bind, if_neg hmax, take_append]

theorem packedText_ne_nil (t : Text) : Record.packedText t ≠ [] := by
  simp [Record.packedText, Varint.encode_ne_nil]

/-- A tag is read back; a stream that holds one is not at its end. -/
theorem tag_packedText {t : Text} (h : t.length ≤ 2 ^ 28) (rest : Text) (e : Option Error) :
    tag ⟨Record.packedText t ++ rest, e⟩ = (.ok (some t), ⟨rest, e⟩) := by
  have hne : Record.packedText t ++ rest ≠ [] := by simp [packedText_ne_nil]
  have hs := sized_packedText h "tag" rest e
  unfold tag
  cases hr : Record.packedText t ++ rest with
  | nil => exact absurd hr hne
  | cons b bs =>
    rw [hr] at hs
    simp only [hs, Step.bind]

end Packed

/-! ### Escaped tokens -/

namespace Token

theorem hexValue_hexDigit : ∀ n < 16, Text.hexValue? (Text.hexDigit n) = some n := by decide

/-- One escaped byte is read back in front of any token. -/
theorem unescape_escapeByte (b : UInt8) (rest : Text) :
    unescape (escapeByte b ++ rest) = (unescape rest).map (b :: ·) := by
  by_cases h1 : b = 92
  · subst h1; simp [escapeByte, unescape]
  by_cases h2 : b = 10
  · subst h2; simp [escapeByte, unescape]
  by_cases h3 : b = 13
  · subst h3; simp [escapeByte, unescape]
  by_cases h4 : b = 9
  · subst h4; simp [escapeByte, unescape]
  by_cases h5 : printable b
  · simp [escapeByte, h1, h2, h3, h4, h5, unescape]
  · have hb := b.toNat_lt
    have hx := hexValue_hexDigit (b.toNat / 16) (by omega)
    have hy := hexValue_hexDigit (b.toNat % 16) (by omega)
    have hval : (16 * (b.toNat / 16) + b.toNat % 16).toUInt8 = b := by
      rw [Nat.div_add_mod, Nat.toUInt8, UInt8.ofNat_toNat]
    simp [escapeByte, h1, h2, h3, h4, h5, unescape, hx, hy, hval]

/-- Reading undoes escaping. -/
theorem unescape_escape (t : Text) : unescape (escape t) = .ok t := by
  induction t with
  | nil => rfl
  | cons b t ih =>
    have : escape (b :: t) = escapeByte b ++ escape t := by simp [escape]
    rw [this, unescape_escapeByte, ih]
    rfl

theorem hexDigit_visible : ∀ n < 16, 0x20 ≤ Text.hexDigit n ∧ Text.hexDigit n ≠ 0x7f := by
  decide

theorem escapeByte_visible (b : UInt8) : ∀ c ∈ escapeByte b, 0x20 ≤ c ∧ c ≠ 0x7f := by
  by_cases h1 : b = 92
  · subst h1; simp [escapeByte]
  by_cases h2 : b = 10
  · subst h2; simp [escapeByte]
  by_cases h3 : b = 13
  · subst h3; simp [escapeByte]
  by_cases h4 : b = 9
  · subst h4; simp [escapeByte]
  have hb := b.toNat_lt
  have hx := hexDigit_visible (b.toNat / 16) (by omega)
  have hy := hexDigit_visible (b.toNat % 16) (by omega)
  by_cases h5 : printable b
  · have hshown : 0x20 ≤ b ∧ b ≠ 0x7f := by simpa [printable, h2, h3, h4] using h5
    simpa [escapeByte, h1, h2, h3, h4, h5] using hshown
  · simp [escapeByte, h1, h2, h3, h4, h5, hx, hy]

/-- An escaped token holds only visible bytes: no tab, line feed or carriage return. -/
theorem escape_visible {t : Text} {c : UInt8} (h : c ∈ escape t) : 0x20 ≤ c ∧ c ≠ 0x7f := by
  obtain ⟨b, -, hc⟩ := List.mem_flatMap.mp h
  exact escapeByte_visible b c hc

end Token

end Reckoner
