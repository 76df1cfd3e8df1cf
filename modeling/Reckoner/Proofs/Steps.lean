import Mathlib.Tactic
import Reckoner.Stream.Reader

/-!
# Steps of decoders

Whatever bytes a decoder is given, a step never leaves more than there was, reading a tag leaves
less, and the only failure is that the stream is malformed.
-/

namespace Reckoner

/-- The error says that a stream is malformed. -/
def Error.IsMalformed (e : Error) : Prop := ∃ message line cause, e = .malformed message line cause

theorem isMalformed_malformed (message : Text) : (malformed message).IsMalformed := ⟨_, _, _, rfl⟩

namespace Step

variable {σ τ α β : Type} {size : σ → Nat} {n : Nat}

/-- What is left has at most the size `n`, and a failure is a malformed stream. -/
structure Tame (size : σ → Nat) (n : Nat) (s : Step σ α) : Prop where
  size_le : size s.2 ≤ n
  failure : ∀ e, s.1 = .error e → e.IsMalformed

theorem tame_ok {s : σ} (a : α) (hs : size s ≤ n) : Tame size n ((.ok a, s) : Step σ α) :=
  ⟨hs, fun _ h => by cases h⟩

theorem tame_error {s : σ} {e : Error} (he : e.IsMalformed) (hs : size s ≤ n) :
    Tame size n ((.error e, s) : Step σ α) :=
  ⟨hs, fun _ h => by cases h; exact he⟩

theorem Tame.mono {s : Step σ α} {m : Nat} (hs : s.Tame size n) (hle : n ≤ m) : s.Tame size m :=
  ⟨hs.size_le.trans hle, hs.failure⟩

theorem Tame.bind {s : Step σ α} {f : α → σ → Step σ β} (hs : s.Tame size n)
    (hf : ∀ a t, size t ≤ n → (f a t).Tame size n) : (s.bind f).Tame size n := by
  obtain ⟨r, t⟩ := s
  cases r with
  | ok a => exact hf a t hs.size_le
  | error e =>
    refine tame_error (hs.failure e rfl) hs.size_le

/-- A sequence that starts with a step that takes something takes something. -/
theorem Tame.bind_lt {s : Step σ α} {f : α → σ → Step σ β} {b : β}
    (hs : ∀ a, s.1 = .ok a → size s.2 < n) (hf : ∀ a t, (f a t).Tame size (size t))
    (hok : (s.bind f).1 = .ok b) : size (s.bind f).2 < n := by
  obtain ⟨r, t⟩ := s
  cases r with
  | ok a => exact lt_of_le_of_lt (hf a t).size_le (hs a rfl)
  | error e => cases hok

theorem Tame.map {size' : τ → Nat} {f : σ → τ} {s : Step σ α} (hs : s.Tame size n)
    (hf : ∀ t, size' (f t) = size t) : (s.map f).Tame size' n :=
  ⟨(hf s.2).trans_le hs.size_le, hs.failure⟩

end Step

open Step (Tame tame_ok tame_error)

/-! ### Packed streams -/

/-- What is left behind a number is less than `n` bytes, and behind one that is too long at most
as many. -/
def Varint.Outcome.Within (n : Nat) : Varint.Outcome → Prop
  | value _ rest => rest.length < n
  | ended => True
  | overflow rest => rest.length ≤ n

theorem Varint.Outcome.Within.succ {n : Nat} {o : Varint.Outcome} (h : o.Within n) :
    o.Within (n + 1) := by
  cases o with
  | value m rest => exact Nat.lt_succ_of_lt h
  | ended => trivial
  | overflow rest => exact Nat.le_succ_of_le h

theorem Varint.decodeFrom_within (left index soFar : Nat) (t : Text) :
    (decodeFrom left index soFar t).Within t.length := by
  induction left generalizing index soFar t with
  | zero => exact le_rfl
  | succ left ih =>
    cases t with
    | nil => trivial
    | cons b t =>
      rw [decodeFrom]
      split
      · split
        · exact Nat.le_succ _
        · exact Nat.lt_succ_self _
      · exact (ih _ _ t).succ

namespace Packed

/-- The number of bytes that are left. -/
def size (p : Packed) : Nat := p.rest.length

variable {n : Nat} {p : Packed}

theorem isMalformed_short (p : Packed) (what : Text) : (p.short what).IsMalformed := ⟨_, _, _, rfl⟩

theorem varint_cases (what : Text) (p : Packed) :
    (p.varint what).Tame size p.size ∧
      ∀ m, (p.varint what).1 = .ok m → (p.varint what).2.size < p.size := by
  have hwithin : (Varint.decode p.rest).Within p.size := Varint.decodeFrom_within 10 0 0 p.rest
  unfold varint
  revert hwithin
  cases Varint.decode p.rest with
  | value m rest => exact fun h => ⟨tame_ok _ (Nat.le_of_lt h), fun _ _ => h⟩
  | ended => exact fun _ => ⟨tame_error ⟨_, _, _, rfl⟩ (Nat.zero_le _), fun _ h => by cases h⟩
  | overflow rest => exact fun h => ⟨tame_error ⟨_, _, _, rfl⟩ h, fun _ h => by cases h⟩

theorem varint_tame (what : Text) (hp : p.size ≤ n) : (p.varint what).Tame size n :=
  (varint_cases what p).1.mono hp

theorem take_tame (what : Text) (count : Nat) (hp : p.size ≤ n) :
    (p.take what count).Tame size n := by
  rw [take]
  split
  · exact tame_error (isMalformed_short p what) (Nat.zero_le _)
  · refine tame_ok _ (le_trans ?_ hp)
    simp [size]

theorem sized_tame (what : Text) (hp : p.size ≤ n) : (p.sized what).Tame size n := by
  refine (varint_tame what hp).bind fun m q hq => ?_
  split
  · exact tame_error (isMalformed_malformed _) hq
  · exact take_tame what m hq

theorem tag_tame (hp : p.size ≤ n) : p.tag.Tame size n := by
  unfold tag
  split
  · exact tame_ok _ hp
  · exact tame_error (isMalformed_short p _) hp
  · exact (sized_tame _ hp).bind fun t q hq => tame_ok _ hq

/-- Reading a tag takes bytes. -/
theorem tag_lt {t : Text} (ht : p.tag.1 = .ok (some t)) : p.tag.2.size < p.size := by
  unfold tag at ht ⊢
  split at ht
  · cases ht
  · cases ht
  · refine Tame.bind_lt (fun u hu => ?_) (fun u q => tame_ok _ le_rfl) ht
    refine Tame.bind_lt (varint_cases _ p).2 (fun m q => ?_) hu
    split
    · exact tame_error (isMalformed_malformed _) le_rfl
    · exact take_tame _ m le_rfl

theorem payload_tame (type : ScalarType) (hp : p.size ≤ n) : (p.payload type).Tame size n := by
  cases type with
  | int => exact (varint_tame _ hp).bind fun m q hq => tame_ok _ hq
  | real => exact (take_tame _ 8 hp).bind fun t q hq => tame_ok _ hq
  | text => exact (sized_tame _ hp).bind fun t q hq => tame_ok _ hq
  | bool =>
    unfold payload
    refine (take_tame _ 1 hp).bind fun t q hq => ?_
    split
    · exact tame_ok _ hq
    · exact tame_ok _ hq
    · exact tame_error (isMalformed_malformed _) hq
  | dateTime =>
    unfold payload
    refine (sized_tame _ hp).bind fun t q hq => ?_
    split
    · exact tame_ok _ hq
    · exact tame_error ⟨_, _, _, rfl⟩ hq
  | timeSpan => exact (varint_tame _ hp).bind fun m q hq => tame_ok _ hq
  | color =>
    unfold payload
    refine (take_tame _ 4 hp).bind fun t q hq => ?_
    split
    · exact tame_ok _ hq
    · exact tame_error (isMalformed_short _ _) hq

end Packed

/-! ### Text streams -/

namespace Lines

/-- The number of lines that are left behind the current one. -/
def size (s : Lines) : Nat := s.rest.length

variable {n : Nat} {s : Lines}

theorem isMalformed_fault (s : Lines) (message : Text) (cause : Option Error) :
    (s.fault message cause).IsMalformed := ⟨_, _, _, rfl⟩

theorem token_tame (what : Text) (hs : s.size ≤ n) : (s.token what).Tame size n := by
  unfold token
  split
  · exact tame_error (isMalformed_fault _ _ _) hs
  · split
    · exact tame_ok _ hs
    · exact tame_error (isMalformed_fault _ _ _) hs

theorem nextLine_lt {k line : Nat} {ls rest : List Text} {l : Text}
    (h : nextLine k ls = some (l, line, rest)) : rest.length < ls.length := by
  induction ls generalizing k with
  | nil => cases h
  | cons l' ls ih =>
    rw [nextLine] at h
    split at h
    · exact Nat.lt_succ_of_lt (ih h)
    · cases h
      exact Nat.lt_succ_self _

/-- A tag leaves no more lines, and takes one if there is a tag. -/
theorem tag_cases (s : Lines) :
    s.tag.Tame size s.size ∧ ∀ t, s.tag.1 = .ok (some t) → s.tag.2.size < s.size := by
  unfold tag
  split
  · split
    · exact ⟨tame_ok _ (Nat.zero_le _), fun _ h => by cases h⟩
    · next l line rest hnext =>
      have hlt := nextLine_lt hnext
      refine ⟨?_, fun t ht => ?_⟩
      · exact (token_tame _ (Nat.le_of_lt hlt)).bind fun t q hq => tame_ok _ hq
      · refine Tame.bind_lt (fun u _ => ?_) (fun u q => tame_ok _ le_rfl) ht
        exact lt_of_le_of_lt (token_tame _ le_rfl).size_le hlt
  · exact ⟨tame_error (isMalformed_fault _ _ _) le_rfl, fun _ h => by cases h⟩

theorem numeral_tame {α : Type} (what reader : Text) (read : Text → Except NumeralFault α)
    (hs : s.size ≤ n) : (s.numeral what reader read).Tame size n := by
  refine (token_tame what hs).bind fun t q hq => ?_
  split
  · exact tame_ok _ hq
  · exact tame_error (isMalformed_fault _ _ _) hq

theorem color_tame (hs : s.size ≤ n) : s.color.Tame size n := by
  refine (token_tame _ hs).bind fun t q hq => ?_
  dsimp only
  split
  · split
    · exact tame_error (isMalformed_fault _ _ _) hq
    · split
      · exact tame_ok _ hq
      · exact tame_error (isMalformed_fault _ _ _) hq
  · exact tame_error (isMalformed_fault _ _ _) hq

theorem payload_tame (type : ScalarType) (hs : s.size ≤ n) : (s.payload type).Tame size n := by
  cases type with
  | int => exact (numeral_tame _ _ _ hs).bind fun m q hq => tame_ok _ hq
  | real => exact (numeral_tame _ _ _ hs).bind fun m q hq => tame_ok _ hq
  | text => exact (token_tame _ hs).bind fun t q hq => tame_ok _ hq
  | bool => exact (numeral_tame _ _ _ hs).bind fun m q hq => tame_ok _ hq
  | dateTime =>
    unfold payload
    refine (token_tame _ hs).bind fun t q hq => ?_
    split
    · exact tame_ok _ hq
    · exact tame_error (isMalformed_fault _ _ _) hq
  | timeSpan => exact (numeral_tame _ _ _ hs).bind fun m q hq => tame_ok _ hq
  | color => exact (color_tame hs).bind fun c q hq => tame_ok _ hq

theorem endRecord_tame (hs : s.size ≤ n) : s.endRecord.Tame size n := by
  unfold endRecord
  split
  · exact tame_ok _ hs
  · exact tame_error (isMalformed_fault _ _ _) hs

theorem length_splitAtByte (c : UInt8) (t : Text) :
    (Text.splitAtByte c t).length + ((Text.splitAtByte c t).map List.length).sum =
      t.length + 1 := by
  induction t with
  | nil => rfl
  | cons b t ih =>
    rw [Text.splitAtByte]
    split
    · simp only [List.length_cons, List.map_cons, List.sum_cons, List.length_nil]
      omega
    · cases hp : Text.splitAtByte c t with
      | nil =>
        rw [hp] at ih
        simp at ih
      | cons piece pieces =>
        rw [hp] at ih
        simp only [List.length_cons, List.map_cons, List.sum_cons] at ih ⊢
        omega

/-- Every line takes at least one byte. -/
theorem size_ofText_le (t : Text) : (ofText t).size ≤ t.length := by
  have hlen := length_splitAtByte 10 t
  rw [size, ofText, split]
  dsimp only
  split
  · rw [List.length_dropLast]
    omega
  · next hlast =>
    have hne : Text.splitAtByte 10 t ≠ [] := by
      intro hnil
      rw [hnil] at hlen
      simp at hlen
    have hbytes : 0 < ((Text.splitAtByte 10 t).getLast hne).length := by
      refine List.length_pos_iff.mpr fun hnil => hlast ?_
      rw [List.getLast?_eq_some_getLast hne, hnil]
    have hsum : ((Text.splitAtByte 10 t).getLast hne).length
        ≤ ((Text.splitAtByte 10 t).map List.length).sum :=
      List.single_le_sum (fun _ _ => Nat.zero_le _) _
        (List.mem_map_of_mem (List.getLast_mem hne))
    omega

end Lines

/-! ### Both -/

namespace Decoder

variable {n : Nat} {d : Decoder}

theorem tag_tame (hd : d.size ≤ n) : d.tag.Tame size n := by
  cases d with
  | packed p => exact (Packed.tag_tame hd).map fun _ => rfl
  | lines s => exact ((Lines.tag_cases s).1.mono hd).map fun _ => rfl

/-- **Reading a tag makes progress.** -/
theorem tag_lt {t : Text} (ht : d.tag.1 = .ok (some t)) : d.tag.2.size < d.size := by
  cases d with
  | packed p => exact Packed.tag_lt ht
  | lines s => exact (Lines.tag_cases s).2 t ht

theorem payload_tame (type : ScalarType) (hd : d.size ≤ n) : (d.payload type).Tame size n := by
  cases d with
  | packed p => exact (Packed.payload_tame type hd).map fun _ => rfl
  | lines s => exact (Lines.payload_tame type hd).map fun _ => rfl

theorem endRecord_tame (hd : d.size ≤ n) : d.endRecord.Tame size n := by
  cases d with
  | packed p => exact tame_ok _ hd
  | lines s => exact (Lines.endRecord_tame hd).map fun _ => rfl

end Decoder

end Reckoner
