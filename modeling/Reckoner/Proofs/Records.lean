import Mathlib.Tactic
import Reckoner.Proofs.DateTimeText
import Reckoner.Proofs.DoubleText
import Reckoner.Proofs.Pieces
import Reckoner.Proofs.Splitting
import Reckoner.Proofs.Token
import Reckoner.Stream.Reader

/-!
# Records read back

One record is read back from what was written, in both layouts, whatever records follow. Packed
payloads are read back as they were. A line keeps every number and every instant, but not which
of the many words for no number a double is, nor whether a zone without distance was universal
time; `normal` says what is read in place of such a payload.
-/

namespace Reckoner

/-! ### What can be stored -/

/-- What is asked of a point in time in a stream: a clock of 64 bits, a year of four digits, and a
zone of whole minutes that the layout can hold, other than minus one. -/
structure DateTime.Storable (layout : Layout) (t : DateTime) : Prop where
  /-- Its clock and its year are ordinary ones. -/
  timely : t.Timely
  /-- Its zone is one that the layout can hold. -/
  zone : ∃ m : Int, t.zone.seconds = 60 * m ∧ m ≠ -1 ∧
    (layout = .lines → -1500 < m ∧ m < 1500) ∧ (layout = .packed → -32768 ≤ m ∧ m ≤ 32767)

/-- What is read back for a double. -/
def Binary64.normal (layout : Layout) (x : Binary64) : Binary64 :=
  if layout = .lines ∧ x.classify = .nan then Binary64.nan else x

/-- What is read back for a point in time. -/
def DateTime.normal (layout : Layout) (t : DateTime) : DateTime :=
  if layout = .lines ∧ t.zone.seconds = 0 then { t with zone := .utc } else t

/-- The point in time is read back from what the layout makes of it. -/
def DateTime.Kept : Layout → DateTime → Prop
  | .packed, t => ∃ bytes, t.pack? = some bytes ∧ bytes.length ≤ 2 ^ 28 ∧ unpack bytes = .ok t
  | .lines, t => read t.text = .ok (t.normal .lines)

namespace Scalar

/-- The payload is one of a value, not too long, and kept by the layout. -/
def Kept (layout : Layout) : Scalar → Prop
  | text s => s.length ≤ 2 ^ 28
  | dateTime t => t.Kept layout
  | color _ => False
  | _ => True

/-- What is read back for a payload. -/
def normal (layout : Layout) : Scalar → Scalar
  | real x => real (x.normal layout)
  | dateTime t => dateTime (t.normal layout)
  | s => s

/-- The type that the tag of a payload announces. -/
def type : Scalar → ScalarType
  | int _ => .int
  | real _ => .real
  | text _ => .text
  | bool _ => .bool
  | dateTime _ => .dateTime
  | timeSpan _ => .timeSpan
  | color _ => .color

theorem ofTag_tag (s : Scalar) : ScalarType.ofTag? s.tag = some s.type := by
  cases s <;> rfl

theorem length_tag (s : Scalar) : 3 ≤ s.tag.length ∧ s.tag.length ≤ 8 := by
  cases s <;> simp only [tag] <;> decide

end Scalar

/-! ### Points in time -/

theorem DateTime.Storable.pack {t : DateTime} (h : t.Storable .packed) :
    ∃ bytes, t.pack? = some bytes ∧ bytes.length = 15 ∧ unpack bytes = .ok t := by
  obtain ⟨m, hz, hne, -, hm⟩ := h.zone
  refine unpack_pack h.timely.seconds_range h.timely.nanos_lt ?_
  cases hzone : t.zone with
  | utc => exact .inl rfl
  | offset s =>
    rw [hzone] at hz
    obtain rfl : s = 60 * m := hz
    exact .inr ⟨m, rfl, (hm rfl).1, (hm rfl).2, hne⟩

/-- What is read in place of a point in time that a text can hold. -/
theorem DateTime.read_normal {t : DateTime} {m : Int} (h : t.Timely) (hz : t.zone.seconds = 60 * m)
    (hm : -1500 < m ∧ m < 1500) : read t.text = .ok (t.normal .lines) := by
  rw [read_text h hz hm]
  unfold normal
  obtain ⟨seconds, nanos, zone⟩ := t
  by_cases h0 : m = 0
  · subst h0
    rw [if_pos rfl, if_pos ⟨rfl, hz⟩]
  · have hne : zone.seconds ≠ 0 := by
      simp only at hz
      omega
    rw [if_neg h0, if_neg fun h => hne h.2]
    cases zone with
    | utc => exact absurd rfl hne
    | offset s =>
      obtain rfl : s = 60 * m := hz
      rfl

/-- What can be stored is kept. -/
theorem DateTime.Storable.kept {layout : Layout} {t : DateTime} (h : t.Storable layout) :
    t.Kept layout := by
  cases layout with
  | packed =>
    obtain ⟨bytes, hbytes, hlen, hread⟩ := h.pack
    exact ⟨bytes, hbytes, by omega, hread⟩
  | lines =>
    obtain ⟨m, hz, -, hm, -⟩ := h.zone
    exact read_normal h.timely hz (hm rfl)

/-! ### Packed payloads -/

/-- A packed payload is read back, whatever follows. -/
theorem Packed.payload_packed {s : Scalar} (h : s.Kept .packed) (rest : Text)
    (e : Option Error) :
    Packed.payload s.type ⟨(Record.packedPayload s).bytes ++ rest, e⟩ = (.ok s, ⟨rest, e⟩) := by
  cases s with
  | int n =>
    simp only [Scalar.type, payload, Record.packedPayload, varint_encode (Varint.fold_lt n),
      Step.bind, Varint.unfold_fold]
  | real x =>
    have htake := take_append "double" (Record.littleEndian 8 x.bits.toNat) rest e
    rw [Record.length_littleEndian] at htake
    have hbits : x.bits.toNat % 256 ^ 8 = x.bits.toNat := Nat.mod_eq_of_lt x.bits.toNat_lt
    simp only [Scalar.type, payload, Record.packedPayload, htake, Step.bind,
      Record.ofLittleEndian_littleEndian, hbits, Nat.toUInt64, UInt64.ofNat_toNat]
  | text s =>
    simp only [Scalar.type, payload, Record.packedPayload, sized_packedText h, Step.bind]
  | bool b =>
    cases b with
    | false =>
      have htake : take "bool" 1 ⟨[0] ++ rest, e⟩ = (.ok [0], ⟨rest, e⟩) :=
        take_append "bool" [0] rest e
      simp only [Scalar.type, payload, Record.packedPayload, Bool.false_eq_true, if_false, htake,
        Step.bind]
    | true =>
      have htake : take "bool" 1 ⟨[1] ++ rest, e⟩ = (.ok [1], ⟨rest, e⟩) :=
        take_append "bool" [1] rest e
      simp only [Scalar.type, payload, Record.packedPayload, if_true, htake, Step.bind]
  | dateTime t =>
    obtain ⟨bytes, hb, hsmall, hread⟩ : t.Kept .packed := h
    simp only [Scalar.type, payload, Record.packedPayload, hb, sized_packedText hsmall, Step.bind,
      hread]
  | timeSpan d =>
    simp only [Scalar.type, payload, Record.packedPayload, varint_encode (Varint.fold_lt d),
      Step.bind, Varint.unfold_fold]
  | color c => exact h.elim

/-! ### Payloads of lines -/

theorem Lines.token_escape (what t : Text) (tokens rest : List Text) (n : Nat) :
    Lines.token what ⟨rest, Token.escape t :: tokens, n⟩ = (.ok t, ⟨rest, tokens, n⟩) := by
  simp only [token, Token.unescape_escape]

theorem Lines.numeral_escape {α : Type} {read : Text → Except NumeralFault α} {t : Text} {a : α}
    (h : read t = .ok a) (what reader : Text) (rest : List Text) (n : Nat) :
    Lines.numeral what reader read ⟨rest, [Token.escape t], n⟩ = (.ok a, ⟨rest, [], n⟩) := by
  simp only [numeral, token_escape, Step.bind, h]

theorem double_normal (x : Binary64) : Numeral.double? x.text = .ok (x.normal .lines) := by
  unfold Binary64.normal
  by_cases hx : x.classify = .nan
  · rw [if_pos ⟨rfl, hx⟩, Binary64.double_text_nan hx]
  · rw [if_neg fun h => hx h.2, Binary64.double_text hx]

/-- The payload of a line is read back. -/
theorem Lines.payload_escape {s : Scalar} (h : s.Kept .lines) (rest : List Text) (n : Nat) :
    Lines.payload s.type ⟨rest, [Token.escape s.token], n⟩
      = (.ok (s.normal .lines), ⟨rest, [], n⟩) := by
  cases s with
  | int m =>
    simp only [Scalar.type, payload, Scalar.token, numeral_escape (Numeral.int64_ofInt m),
      Step.bind, Scalar.normal]
  | real x =>
    simp only [Scalar.type, payload, Scalar.token, numeral_escape (double_normal x), Step.bind,
      Scalar.normal]
  | text s => simp only [Scalar.type, payload, Scalar.token, token_escape, Step.bind, Scalar.normal]
  | bool b =>
    have hb := Numeral.bool_text b
    simp only [Scalar.type, payload, Scalar.token, Scalar.normal]
    rw [numeral_escape hb]
    rfl
  | dateTime t =>
    have hread : DateTime.read t.text = .ok (t.normal .lines) := h
    simp only [Scalar.type, payload, Scalar.token, token_escape, Step.bind, hread, Scalar.normal]
  | timeSpan d =>
    simp only [Scalar.type, payload, Scalar.token, numeral_escape (Numeral.int64_ofInt d),
      Step.bind, Scalar.normal]
  | color c => exact h.elim

/-! ### Payloads of both layouts -/

/-- The payload of `s` is read as that of `s'`, whatever follows. -/
def Scalar.ReadAs : Layout → Scalar → Scalar → Prop
  | .packed, s, s' => ∀ rest e,
    Packed.payload s.type ⟨(Record.packedPayload s).bytes ++ rest, e⟩ = (.ok s', ⟨rest, e⟩)
  | .lines, s, s' => ∀ rest n,
    Lines.payload s.type ⟨rest, [Token.escape s.token], n⟩ = (.ok s', ⟨rest, [], n⟩)

/-- A payload that is kept is read as what is read back for it. -/
theorem Scalar.Kept.readAs {layout : Layout} {s : Scalar} (h : s.Kept layout) :
    s.ReadAs layout (s.normal layout) := by
  cases layout with
  | packed =>
    have hnormal : s.normal .packed = s := by
      cases s <;> simp [Scalar.normal, Binary64.normal, DateTime.normal]
    rw [hnormal]
    exact Packed.payload_packed h
  | lines => exact Lines.payload_escape h

/-! ### Lines -/

namespace Piece

/-- The tokens of a record before escaping. -/
def tokens : Piece → List Text
  | scalar s => [s.tag, s.token]
  | opening tag => [tag]

/-- The line of a record, without its end. -/
def line (e : Piece) : Text := Text.join "\t" (e.tokens.map Token.escape)

theorem bytes_lines (e : Piece) : e.bytes .lines = e.line ++ [10] := by
  cases e <;> rfl

theorem line_scalar (s : Scalar) :
    (scalar s).line = Token.escape s.tag ++ 9 :: Token.escape s.token := by
  simp only [line, tokens, List.map_cons, List.map_nil, Text.join, List.append_assoc]
  rfl

theorem mem_line {e : Piece} {b : UInt8} (h : b ∈ e.line) : b = 9 ∨ (0x20 ≤ b ∧ b ≠ 0x7f) := by
  cases e with
  | opening tag => exact .inr (Token.escape_visible h)
  | scalar s =>
    rw [line_scalar] at h
    rcases List.mem_append.mp h with h | h
    · exact .inr (Token.escape_visible h)
    · rcases List.mem_cons.mp h with h | h
      · exact .inl h
      · exact .inr (Token.escape_visible h)

/-- The lines of records hold visible bytes, tabs and line feeds. -/
theorem mem_lines {es : List Piece} {b : UInt8} (h : b ∈ es.flatMap (bytes .lines)) :
    b = 9 ∨ b = 10 ∨ (0x20 ≤ b ∧ b ≠ 0x7f) := by
  obtain ⟨e, -, h⟩ := List.mem_flatMap.mp h
  rw [bytes_lines, List.mem_append, List.mem_singleton] at h
  rcases h with h | h
  · exact (mem_line h).imp_right .inr
  · exact .inr (.inl h)

theorem notMem_line (e : Piece) : 10 ∉ e.line ∧ 13 ∉ e.line := by
  constructor
  · intro h
    rcases mem_line h with h | ⟨h, -⟩
    · exact absurd h (by decide)
    · exact absurd h (by decide)
  · intro h
    rcases mem_line h with h | ⟨h, -⟩
    · exact absurd h (by decide)
    · exact absurd h (by decide)

theorem notMem_escape (t : Text) : 9 ∉ Token.escape t := by
  intro h
  exact absurd (Token.escape_visible h).1 (by decide)

/-- A line is divided into its tokens again. -/
theorem split_line (e : Piece) : Text.splitAtByte 9 e.line = e.tokens.map Token.escape := by
  cases e with
  | opening tag => exact Text.splitAtByte_of_notMem (notMem_escape tag)
  | scalar s =>
    rw [line_scalar, Text.splitAtByte_append (notMem_escape _),
      Text.splitAtByte_of_notMem (notMem_escape _)]
    rfl

theorem escape_ne_nil {t : Text} (h : t ≠ []) : Token.escape t ≠ [] := by
  obtain ⟨b, t, rfl⟩ := List.exists_cons_of_ne_nil h
  intro hnil
  have := Token.unescape_escape (b :: t)
  rw [hnil] at this
  cases this

theorem line_scalar_ne_nil (s : Scalar) : (scalar s).line ≠ [] := by
  have htag : s.tag ≠ [] := by
    intro hnil
    have := (Scalar.length_tag s).1
    rw [hnil] at this
    cases this
  simp [line, tokens, Text.join, escape_ne_nil htag]

end Piece

namespace Lines

theorem trimReturn_line (e : Piece) : trimReturn e.line = e.line := by
  rw [trimReturn, if_neg]
  intro h
  exact (Piece.notMem_line e).2 (List.mem_of_getLast? h)

/-- Each record is one line, and nothing is behind the end of the last one. -/
theorem splitAtByte_pieces (es : List Piece) :
    Text.splitAtByte 10 (es.flatMap (Piece.bytes .lines)) = es.map Piece.line ++ [[]] := by
  induction es with
  | nil => rfl
  | cons e es ih =>
    rw [List.flatMap_cons, Piece.bytes_lines, List.append_assoc, List.singleton_append,
      Text.splitAtByte_append (Piece.notMem_line e).1, ih, List.map_cons, List.cons_append]

/-- The lines of a stream are those of its records. -/
theorem split_pieces (es : List Piece) :
    split (es.flatMap (Piece.bytes .lines)) = es.map Piece.line := by
  rw [split, splitAtByte_pieces]
  simp

end Lines

/-! ### Decoders in front of records -/

/-- The decoder stands in front of the given records, which are all that is left. -/
def Decoder.At : Layout → List Piece → Decoder → Prop
  | .packed, es, d => d = .packed ⟨es.flatMap (Piece.bytes .packed), none⟩
  | .lines, es, d => ∃ n, d = .lines ⟨es.map Piece.line, [], n⟩

namespace Decoder

variable {layout : Layout} {es : List Piece} {d : Decoder}

theorem at_end (h : At layout [] d) : ∃ d', d.tag = (.ok none, d') ∧ At layout [] d' := by
  cases layout with
  | packed =>
    obtain rfl := h
    exact ⟨_, rfl, rfl⟩
  | lines =>
    obtain ⟨n, rfl⟩ := h
    exact ⟨_, rfl, n, rfl⟩

/-- A tag is read from the next line. -/
theorem tag_lines {e : Piece} (he : e.line ≠ []) {tag : Text} {tokens : List Text}
    (htokens : e.tokens = tag :: tokens) (rest : List Text) (n : Nat) :
    Lines.tag ⟨e.line :: rest, [], n⟩
      = (.ok (some tag), ⟨rest, tokens.map Token.escape, n + 1⟩) := by
  have hne : (Lines.trimReturn e.line).isEmpty = false := by
    rw [Lines.trimReturn_line]
    simpa using he
  have hnext : Lines.nextLine n (e.line :: rest) = some (e.line, n + 1, rest) := by
    rw [Lines.nextLine, if_neg (by rw [hne]; simp), Lines.trimReturn_line]
  unfold Lines.tag
  simp only [List.isEmpty_nil, if_true, hnext, Piece.split_line, htokens, List.map_cons,
    Lines.token_escape, Step.bind]

/-- The record of a scalar is read. -/
theorem at_scalar {s s' : Scalar} (hs : s.ReadAs layout s') (h : At layout (.scalar s :: es) d) :
    ∃ d₁ d₂, d.tag = (.ok (some s.tag), d₁) ∧ d₁.payload s.type = (.ok s', d₂) ∧
      d₂.endRecord = (.ok (), d₂) ∧ At layout es d₂ := by
  cases layout with
  | packed =>
    obtain rfl := h
    have hbytes : (Piece.scalar s).bytes .packed
        = Record.packedText s.tag ++ (Record.packedPayload s).bytes := rfl
    have htag : s.tag.length ≤ 2 ^ 28 := by have := (Scalar.length_tag s).2; omega
    refine ⟨.packed ⟨(Record.packedPayload s).bytes ++ es.flatMap (Piece.bytes .packed), none⟩, _,
      ?_, ?_, rfl, rfl⟩
    · rw [List.flatMap_cons, hbytes, List.append_assoc, Decoder.tag, Packed.tag_packedText htag]
      rfl
    · rw [Decoder.payload, hs]
      rfl
  | lines =>
    obtain ⟨n, rfl⟩ := h
    refine ⟨.lines ⟨es.map Piece.line, [Token.escape s.token], n + 1⟩, _, ?_, ?_, rfl, n + 1, rfl⟩
    · rw [List.map_cons, Decoder.tag, tag_lines (Piece.line_scalar_ne_nil s) rfl]
      rfl
    · rw [Decoder.payload, hs]
      rfl

/-- A record that is only a tag is read back. -/
theorem at_opening {tag : Text} (ht : tag ≠ [] ∧ tag.length ≤ 2 ^ 28)
    (h : At layout (.opening tag :: es) d) :
    ∃ d', d.tag = (.ok (some tag), d') ∧ d'.endRecord = (.ok (), d') ∧ At layout es d' := by
  cases layout with
  | packed =>
    obtain rfl := h
    have hbytes : (Piece.opening tag).bytes .packed = Record.packedText tag := rfl
    refine ⟨_, ?_, rfl, rfl⟩
    rw [List.flatMap_cons, hbytes, Decoder.tag, Packed.tag_packedText ht.2]
    rfl
  | lines =>
    obtain ⟨n, rfl⟩ := h
    have hline : (Piece.opening tag).line ≠ [] := Piece.escape_ne_nil ht.1
    refine ⟨_, ?_, rfl, n + 1, rfl⟩
    rw [List.map_cons, Decoder.tag, tag_lines hline rfl]
    rfl

theorem bytes_packed_ne_nil (e : Piece) : e.bytes .packed ≠ [] := by
  cases e with
  | scalar s =>
    have hbytes : (Piece.scalar s).bytes .packed
        = Record.packedText s.tag ++ (Record.packedPayload s).bytes := rfl
    rw [hbytes]
    simp [Packed.packedText_ne_nil]
  | opening tag => exact Packed.packedText_ne_nil tag

/-- Every record that is left counts. -/
theorem length_le_size (h : At layout es d) : es.length ≤ d.size := by
  cases layout with
  | packed =>
    obtain rfl := h
    simp only [size]
    induction es with
    | nil => exact Nat.zero_le _
    | cons e es ih =>
      have := List.length_pos_iff.mpr (bytes_packed_ne_nil e)
      rw [List.flatMap_cons, List.length_append, List.length_cons]
      omega
  | lines =>
    obtain ⟨n, rfl⟩ := h
    rw [size, List.length_map]

end Decoder

end Reckoner
