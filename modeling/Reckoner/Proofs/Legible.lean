import Reckoner.Proofs.Composite
import Reckoner.Proofs.Locality
import Reckoner.Proofs.Total

/-!
# Records that can be read

What a newer writer puts into a stream need not be known here, as long as it can be read: records
are legible if the reader takes them off a stream in which something follows, and leaves what
follows. As reading does not look ahead, it does so whatever follows. Scalars are legible, colors
among them, and so are the records of values.
-/

namespace Reckoner

open Reading (Takes)

variable {layout : Layout}

/-! ### How much is read -/

/-- How many bytes, or lines, the records take. -/
def Piece.extent (layout : Layout) (es : List Piece) : Nat :=
  match layout with
  | .packed => (es.flatMap (bytes .packed)).length
  | .lines => es.length

namespace Piece

theorem extent_append (es fs : List Piece) :
    extent layout (es ++ fs) = extent layout es + extent layout fs := by
  cases layout with
  | packed => rw [extent, List.flatMap_append, List.length_append]; rfl
  | lines => exact List.length_append

/-- Every record takes something. -/
theorem length_le_extent (es : List Piece) : es.length ≤ extent layout es := by
  cases layout with
  | packed =>
    have hat : (Decoder.packed ⟨es.flatMap (bytes .packed), none⟩).At .packed es := rfl
    exact Decoder.length_le_size hat
  | lines => exact le_rfl

theorem extent_cons (e : Piece) (es : List Piece) :
    extent layout es + 1 ≤ extent layout (e :: es) := by
  have happend : extent layout (e :: es) = extent layout [e] + extent layout es :=
    extent_append [e] es
  have hpos : 1 ≤ extent layout [e] := length_le_extent [e]
  omega

/-- The records of a field take more than those of its content. -/
theorem extent_field {fields : List (List Piece × Text × Text)} {f : List Piece × Text × Text}
    (hf : f ∈ fields) : extent layout f.1 < extent layout (block fields) := by
  have hle : extent layout f.1 ≤ extent layout (fields.flatMap field) := by
    induction fields with
    | nil => cases hf
    | cons g fields ih =>
      rw [List.flatMap_cons, extent_append]
      rcases List.mem_cons.mp hf with rfl | hf
      · rw [field, extent_append]
        omega
      · exact (ih hf).trans (Nat.le_add_left _ _)
  exact (Nat.lt_succ_of_le hle).trans_le (extent_cons _ _)

end Piece

namespace Decoder

variable {es p q : List Piece} {d d' t t' : Decoder}

theorem size_of_at (hd : d.At layout es) : d.size = Piece.extent layout es := by
  cases layout with
  | packed =>
    obtain rfl := hd
    rfl
  | lines =>
    obtain ⟨n, rfl⟩ := hd
    exact List.length_map ..

/-- Something stands in front of any records. -/
theorem exists_at (layout : Layout) (es : List Piece) : ∃ d : Decoder, d.At layout es := by
  cases layout with
  | packed => exact ⟨_, rfl⟩
  | lines => exact ⟨_, 0, rfl⟩

/-- Decoders in front of the same records with different ones behind them are alike. -/
theorem alike_of_at (hd : d.At layout (es ++ p)) (hd' : d'.At layout (es ++ q))
    (ht : t.At layout p) (ht' : t'.At layout q) : Alike t t' d d' := by
  cases layout with
  | packed =>
    obtain rfl := hd
    obtain rfl := hd'
    obtain rfl := ht
    obtain rfl := ht'
    rw [List.flatMap_append, List.flatMap_append]
    exact .packed ⟨_, rfl, rfl⟩
  | lines =>
    obtain ⟨n, rfl⟩ := hd
    obtain ⟨n', rfl⟩ := hd'
    obtain ⟨k, rfl⟩ := ht
    obtain ⟨k', rfl⟩ := ht'
    rw [List.map_append, List.map_append]
    exact .lines ⟨_, _, [], n, n', rfl, rfl, _, rfl, rfl⟩

/-- What is like the tail on one side is the tail on the other one. -/
theorem at_of_alike (ht : t.At layout p) (ht' : t'.At layout q) (h : Alike t t' t d) :
    d.At layout q := by
  cases layout with
  | packed =>
    obtain rfl := ht
    obtain rfl := ht'
    exact h.packed_tail
  | lines =>
    obtain ⟨k, rfl⟩ := ht
    obtain ⟨k', rfl⟩ := ht'
    cases h with
    | lines hl =>
      obtain ⟨_, _, tokens, n, n', hfront, rfl, front, hrest, rfl⟩ := hl
      obtain ⟨rfl, rfl, -⟩ := Lines.mk.inj hfront
      rw [List.self_eq_append_left.mp hrest, List.nil_append]
      exact ⟨n', rfl⟩

end Decoder

/-! ### Legible records -/

/-- The records are read off a stream in which another one follows. -/
def Legible (layout : Layout) (es : List Piece) : Prop :=
  ∃ (e : Piece) (fuel : Nat) (d : Decoder), d.At layout (es ++ [e]) ∧
    ∀ h : Heap, ∃ x d' h', (readRecord Catalog.values 1 fuel).exec ⟨d, h⟩
      = (.ok (some x), ⟨d', h'⟩) ∧ d'.At layout [e]

/-- Reading changes no context that was there. -/
theorem readRecord_grows {fuel : Nat} {d : Decoder} (hd : d.size < fuel) (h : Heap) :
    h.Grows ((readRecord Catalog.values 1 fuel).exec ⟨d, h⟩).2.heap := by
  have hkept : Reading.Kept (.reading h) d h ((readRecord Catalog.values 1 fuel).exec ⟨d, h⟩)
      (Invariant.reading h).datum :=
    (readRecord_kept (fun _ _ he => values_refusal he) hd (Invariant.reading_start h)).1
  exact hkept.heap.1

/-- **Legible records are read whatever follows.** That the heap only grows is known for the fuel
that the whole stream asks for, and less of it makes no difference here. -/
theorem Legible.takes {es : List Piece} (hes : Legible layout es) {fuel : Nat}
    (hfuel : Piece.extent layout es < fuel) :
    Takes layout es (readRecord Catalog.values 1 fuel) fun _ _ d => d ≠ none := by
  obtain ⟨e, fuel₀, d₀, hd₀, hread⟩ := hes
  intro rest d h hd
  obtain ⟨x, t, h', hexec, ht⟩ := hread h
  have hpos : 0 < t.size := by
    rw [Decoder.size_of_at ht]
    exact Piece.length_le_extent [e]
  have hfollows : ∀ {q : List Piece} {d t' : Decoder} {k : Nat}, d.At layout (es ++ q) →
      t'.At layout q → Piece.extent layout es < k →
      ∃ d', (readRecord Catalog.values 1 k).exec ⟨d, h⟩ = (.ok (some x), ⟨d', h'⟩) ∧
        d'.At layout q := by
    intro q d t' k hd ht' hk
    have hsize : d₀.size < t.size + k := by
      rw [Decoder.size_of_at hd₀, Decoder.size_of_at ht, Piece.extent_append]
      omega
    obtain ⟨d', hexec', halike⟩ :=
      readRecord_follows hpos (Decoder.alike_of_at hd₀ hd ht ht') hsize hexec
    exact ⟨d', hexec', Decoder.at_of_alike ht ht' halike⟩
  obtain ⟨t', ht'⟩ := Decoder.exists_at layout rest
  obtain ⟨d', hexec', hd'⟩ := hfollows hd ht' hfuel
  refine ⟨some x, d', h', hexec', hd', ?_, Option.some_ne_none x⟩
  have hsize : Piece.extent layout es < d₀.size + 1 := by
    rw [Decoder.size_of_at hd₀, Piece.extent_append]
    omega
  obtain ⟨_, hexec₀, -⟩ := hfollows hd₀ ht hsize
  have hgrows := readRecord_grows (Nat.lt_succ_self d₀.size) h
  rwa [hexec₀] at hgrows

/-! ### What is legible -/

/-- Records that are taken off whatever follows are legible. -/
theorem legible_of_takes {es : List Piece} {fuel : Nat} {P : Nat → Heap → Option Datum → Prop}
    (hes : Takes layout es (readRecord Catalog.values 1 fuel) P)
    (hP : ∀ lo h d, P lo h d → d ≠ none) : Legible layout es := by
  obtain ⟨d, hd⟩ := Decoder.exists_at layout (es ++ [.label []])
  refine ⟨.label [], fuel, d, hd, fun h => ?_⟩
  obtain ⟨x, d', h', hexec, hd', -, hx⟩ := hes _ d h hd
  obtain ⟨x, rfl⟩ := Option.ne_none_iff_exists'.mp (hP _ _ _ hx)
  exact ⟨x, d', h', hexec, hd'⟩

/-- The records of a value are legible. -/
theorem legible_pieces {s : Snapshot} (hs : s.Kept layout) : Legible layout s.pieces := by
  refine legible_of_takes (readsBack hs le_rfl) ?_
  rintro _ _ _ ⟨v, rfl, -⟩
  exact Option.some_ne_none _

/-- The record of a scalar is legible if its payload is read. -/
theorem legible_scalar {s s' : Scalar} (hs : s.ReadAs layout s') : Legible layout [.scalar s] := by
  have hread : Takes layout [.scalar s] (readRecord Catalog.values 1 (0 + 1)) _ :=
    readRecord_scalar hs
  refine legible_of_takes hread ?_
  rintro _ _ _ rfl
  exact Option.some_ne_none _

/-- Two hexadecimal digits are read as the byte that they stand for. -/
theorem hex_byte (b : UInt8) (n : Nat) (rest : Text) :
    Numeral.hex? n (Text.ofHex 2 b.toNat ++ rest) = Numeral.hex? (256 * n + b.toNat) rest := by
  have hb := b.toNat_lt
  have hhigh := Token.hexValue_hexDigit (b.toNat / 16 % 16) (by omega)
  have hlow := Token.hexValue_hexDigit (b.toNat % 16) (by omega)
  have hsum : 16 * (16 * n + b.toNat / 16 % 16) + b.toNat % 16 = 256 * n + b.toNat := by omega
  simp only [Text.ofHex, List.nil_append, List.cons_append, Numeral.hex?, hhigh, hlow, hsum]

/-- The digits of a color are its bytes. -/
theorem hex_color (c : Color) :
    Numeral.hex? 0 ([c.red, c.green, c.blue, c.alpha].flatMap fun b => Text.ofHex 2 b.toNat)
      = .ok (256 * (256 * (256 * c.red.toNat + c.green.toNat) + c.blue.toNat) + c.alpha.toNat) := by
  have hlast := hex_byte c.alpha (256 * (256 * c.red.toNat + c.green.toNat) + c.blue.toNat) []
  rw [List.append_nil] at hlast
  simp only [List.flatMap_cons, List.flatMap_nil, List.append_nil, hex_byte, hlast, Nat.mul_zero,
    Nat.zero_add]
  rfl

theorem toUInt8_eq {n : Nat} {b : UInt8} (h : n % 256 = b.toNat) : n.toUInt8 = b := by
  rw [← UInt8.toNat_inj, Nat.toUInt8, UInt8.toNat_ofNat']
  exact h

/-- A color is read back in both layouts. -/
theorem color_readAs (layout : Layout) (c : Color) :
    (Scalar.color c).ReadAs layout (.color c) := by
  cases layout with
  | packed =>
    intro rest e
    have htake : Packed.take "color" 4 ⟨[c.red, c.green, c.blue, c.alpha] ++ rest, e⟩
        = (.ok [c.red, c.green, c.blue, c.alpha], ⟨rest, e⟩) :=
      Packed.take_append "color" [c.red, c.green, c.blue, c.alpha] rest e
    simp only [Scalar.type, Packed.payload, Record.packedPayload, htake, Step.bind]
  | lines =>
    intro rest n
    have htoken : (Scalar.color c).token
        = 35 :: [c.red, c.green, c.blue, c.alpha].flatMap fun b => Text.ofHex 2 b.toNat := rfl
    have hlen : ([c.red, c.green, c.blue, c.alpha].flatMap fun b => Text.ofHex 2 b.toNat).length
        = 8 := rfl
    have hr := c.red.toNat_lt
    have hg := c.green.toNat_lt
    have hb := c.blue.toNat_lt
    have ha := c.alpha.toNat_lt
    have hcolor : Lines.color ⟨rest, [Token.escape (Scalar.color c).token], n⟩
        = (.ok c, ⟨rest, [], n⟩) := by
      rw [htoken, Lines.color, Lines.token_escape]
      simp only [Step.bind, hlen, hex_color, ne_eq, not_true_eq_false, if_false]
      rw [toUInt8_eq (b := c.red) (by omega), toUInt8_eq (b := c.green) (by omega),
        toUInt8_eq (b := c.blue) (by omega), toUInt8_eq (b := c.alpha) (by omega)]
    simp only [Scalar.type, Lines.payload, hcolor, Step.bind]

end Reckoner
