import Reckoner.Proofs.Locality
import Reckoner.Proofs.RoundTrip
import Reckoner.Proofs.Total

/-!
# Streams that are cut off

A packed stream has no mark at its end, so that it can be cut off anywhere. Values in front of the
cut are read as ever. A cut between two values looks like the end of a stream. A cut inside of a
scalar is noticed, wherever it is: in the length of the tag or in the tag, in a number of variable
length, in a text or its length, and in bytes of a fixed number.
-/

namespace Reckoner

/-! ### Steps that need all their bytes -/

/-- All bytes of a number but the last are continued. -/
theorem Varint.decodeFrom_cut {left more index soFar n k : Nat} (hleft : more < left)
    (hk : k < (encodeFrom more n).length) :
    decodeFrom left index soFar ((encodeFrom more n).take k) = .ended := by
  induction more generalizing left index soFar n k with
  | zero =>
    obtain ⟨left, rfl⟩ := Nat.exists_eq_succ_of_ne_zero (Nat.ne_of_gt hleft)
    obtain rfl : k = 0 := Nat.lt_one_iff.mp hk
    rfl
  | succ more ih =>
    obtain ⟨left, rfl⟩ := Nat.exists_eq_succ_of_ne_zero (Nat.ne_of_gt (Nat.zero_lt_of_lt hleft))
    cases k with
    | zero => rfl
    | succ k =>
      by_cases hn : n < 128
      · rw [encodeFrom, if_pos hn] at hk
        exact absurd hk (by simp)
      · rw [encodeFrom, if_neg hn] at hk ⊢
        have hbyte : ¬ (n % 128 + 128).toUInt8 < 128 := by
          rw [UInt8.lt_iff_toNat_lt, toNat_toUInt8 (by omega)]
          exact Nat.not_lt.mpr (Nat.le_add_left _ _)
        rw [List.take_succ_cons, decodeFrom, if_neg hbyte]
        exact ih (Nat.lt_of_succ_lt_succ hleft) (Nat.lt_of_succ_lt_succ hk)

/-- The error says that the bytes end inside of something. -/
def Error.IsShort (e : Error) : Prop :=
  ∃ message, e = .malformed message 0 (some .unexpectedEnd)

namespace Packed

variable {α β : Type} {f : Packed → Step Packed α} {p q : Text}

/-- The step fails on every part of the bytes that is not all of them, because they end. -/
def Needs (f : Packed → Step Packed α) (p : Text) : Prop :=
  ∀ n < p.length, ∃ e s, f ⟨p.take n, none⟩ = (.error e, s) ∧ e.IsShort

/-- The step takes just the bytes and gives the result. -/
def Gives (f : Packed → Step Packed α) (p : Text) (a : α) : Prop :=
  ∀ rest, f ⟨p ++ rest, none⟩ = (.ok a, ⟨rest, none⟩)

theorem isShort_short (t what : Text) : (short ⟨t, none⟩ what).IsShort := ⟨_, rfl⟩

/-- A step that fails is the end. -/
theorem Needs.bind (hf : Needs f p) (next : α → Packed → Step Packed β) :
    Needs (fun s => (f s).bind next) p := by
  intro n hn
  obtain ⟨e, s, hs, he⟩ := hf n hn
  exact ⟨e, s, by simp only [hs]; rfl, he⟩

/-- One step after another: the bytes end inside of those of the first one or behind them. -/
theorem Needs.andThen {a : α} {next : α → Packed → Step Packed β} (hf : Needs f p)
    (hread : Gives f p a) (hnext : Needs (next a) q) :
    Needs (fun s => (f s).bind next) (p ++ q) := by
  intro n hn
  rcases Nat.lt_or_ge n p.length with hlt | hge
  · obtain ⟨e, s, hs, he⟩ := hf.bind next n hlt
    exact ⟨e, s, by rwa [List.take_append_of_le_length hlt.le], he⟩
  · obtain ⟨e, s, hs, he⟩ := hnext (n - p.length) (by rw [List.length_append] at hn; omega)
    refine ⟨e, s, ?_, he⟩
    simp only [List.take_append, List.take_of_length_le hge, hread _]
    exact hs

theorem needs_take (what : Text) (p : Text) : Needs (take what p.length) p := by
  intro n hn
  refine ⟨_, _, if_pos ?_, isShort_short _ _⟩
  rw [List.length_take, List.length_take]
  omega

theorem needs_varint (what : Text) (n : Nat) : Needs (varint what) (Varint.encode n) := by
  intro k hk
  have hended : Varint.decode ((Varint.encode n).take k) = .ended :=
    Varint.decodeFrom_cut (by decide) hk
  exact ⟨_, _, by rw [varint, hended], isShort_short _ _⟩

theorem gives_varint {n : Nat} (hn : n < 2 ^ 64) (what : Text) :
    Gives (varint what) (Varint.encode n) n := fun rest => varint_encode hn what rest none

theorem needs_sized {t : Text} (ht : t.length ≤ 2 ^ 28) (what : Text) :
    Needs (sized what) (Record.packedText t) := by
  refine (needs_varint what t.length).andThen (gives_varint (by omega) what) ?_
  have hmax : ¬ maxToken < t.length := by simp only [maxToken, Nat.pow_eq]; omega
  simp only [if_neg hmax]
  exact needs_take what t

/-- A tag that is cut off is not the end of the stream, unless nothing of it is there. -/
theorem tag_cut {t : Text} (ht : t.length ≤ 2 ^ 28) {n : Nat} (hpos : 0 < n)
    (hn : n < (Record.packedText t).length) :
    ∃ e s, tag ⟨(Record.packedText t).take n, none⟩ = (.error e, s) ∧ e.IsShort := by
  obtain ⟨e, s, hs, he⟩ := (needs_sized ht "tag").bind (fun t p => (.ok (some t), p)) n hn
  refine ⟨e, s, ?_, he⟩
  cases hbytes : (Record.packedText t).take n with
  | nil =>
    have hlen := congrArg List.length hbytes
    rw [List.length_take, List.length_nil] at hlen
    omega
  | cons b rest =>
    rw [hbytes] at hs
    exact hs

/-- **The payload of a scalar needs all its bytes.** -/
theorem needs_payload {s : Scalar} (hs : s.Kept .packed) :
    Needs (payload s.type) (Record.packedPayload s).bytes := by
  cases s with
  | int n => exact (needs_varint "int" (Varint.fold n)).bind _
  | real x =>
    have htake := needs_take "double" (Record.littleEndian 8 x.bits.toNat)
    rw [Record.length_littleEndian] at htake
    exact htake.bind _
  | text t => exact (needs_sized hs "string").bind _
  | bool b =>
    change Needs (fun p => payload .bool p) _
    unfold payload
    exact (needs_take "bool" [if b then 1 else 0]).bind _
  | dateTime t =>
    obtain ⟨bytes, hbytes, hsmall, -⟩ : t.Kept .packed := hs
    have hpacked : (Record.packedPayload (.dateTime t)).bytes = Record.packedText bytes := by
      rw [Record.packedPayload, hbytes]
    rw [hpacked]
    change Needs (fun p => payload .dateTime p) _
    unfold payload
    exact (needs_sized hsmall "datetime").bind _
  | timeSpan d => exact (needs_varint "timespan" (Varint.fold d)).bind _
  | color c => exact hs.elim

end Packed

/-! ### Records of packed streams -/

namespace Reader

/-- The reader of values stands in front of the bytes, which are all that is left. -/
structure Left (r : Reader) (bytes : Text) : Prop where
  catalog : r.catalog = Catalog.values
  version : r.version = 1
  decoder : r.decoder = .packed ⟨bytes, none⟩

end Reader

variable {s : Snapshot} {h : Heap} {fuel : Nat}

/-- **A packed value is read whatever bytes follow.** It is read with a record behind it, and
reading does not look ahead. -/
theorem readRecord_front (hs : s.Kept .packed) (tail : Text) (h : Heap)
    (hfuel : (s.bytes .packed).length < fuel) :
    ∃ v h', (readRecord Catalog.values 1 fuel).exec ⟨.packed ⟨s.bytes .packed ++ tail, none⟩, h⟩
        = (.ok (some (.value v)), ⟨.packed ⟨tail, none⟩, h'⟩) ∧
      h.Grows h' ∧ h'.Shows (h'.Since h.contexts.size) v s := by
  have hat : (Decoder.packed ⟨s.bytes .packed ++ (Piece.label []).bytes .packed, none⟩).At .packed
      (s.pieces ++ [.label []]) := by
    rw [Decoder.At, List.flatMap_append, List.flatMap_singleton]
    rfl
  obtain ⟨_, _, h', hexec, rfl, hg, v, rfl, hv⟩ := readsBack hs le_rfl _ _ h hat
  rw [Snapshot.normal_packed] at hv
  rw [List.flatMap_singleton] at hexec
  have ht : 0 < (Decoder.packed ⟨(Piece.label []).bytes .packed, none⟩).size := by decide
  have hsize : (Decoder.packed ⟨s.bytes .packed ++ (Piece.label []).bytes .packed, none⟩).size
      < (Decoder.packed ⟨(Piece.label []).bytes .packed, none⟩).size + fuel := by
    simp only [Decoder.size, List.length_append]
    omega
  have halike : Decoder.Alike (.packed ⟨(Piece.label []).bytes .packed, none⟩)
      (.packed ⟨tail, none⟩) _ _ := .packed ⟨s.bytes .packed, rfl, rfl⟩
  obtain ⟨d, hexec', hd⟩ := readRecord_follows ht halike hsize hexec
  rw [hd.packed_tail] at hexec'
  exact ⟨v, h', hexec', hg, hv⟩

/-- A scalar that is cut off is noticed. -/
theorem readRecord_cut {c : Scalar} (hc : c.Kept .packed) {n : Nat} (hpos : 0 < n)
    (hn : n < ((Piece.scalar c).bytes .packed).length) (catalog : Catalog) (version : Int)
    (fuel : Nat) (h : Heap) :
    ∃ e cur, (readRecord catalog version (fuel + 1)).exec
        ⟨.packed ⟨((Piece.scalar c).bytes .packed).take n, none⟩, h⟩ = (.error e, cur) ∧
      e.IsShort := by
  have hbytes : (Piece.scalar c).bytes .packed
      = Record.packedText c.tag ++ (Record.packedPayload c).bytes := rfl
  have htag : c.tag.length ≤ 2 ^ 28 := by have := (Scalar.length_tag c).2; omega
  rw [hbytes] at hn ⊢
  rw [readRecord_succ]
  rcases Nat.lt_or_ge n (Record.packedText c.tag).length with hlt | hge
  · rw [List.take_append_of_le_length hlt.le]
    obtain ⟨e, s, hs, he⟩ := Packed.tag_cut htag hpos hlt
    have hstep : (Reading.step Decoder.tag).exec
        ⟨.packed ⟨(Record.packedText c.tag).take n, none⟩, h⟩ = (.error e, ⟨.packed s, h⟩) := by
      rw [Reading.exec_step, Decoder.tag, hs]
      rfl
    exact ⟨e, _, Reading.exec_bind_error hstep, he⟩
  · obtain ⟨e, s, hs, he⟩ := Packed.needs_payload hc (n - (Record.packedText c.tag).length)
      (by rw [List.length_append] at hn; omega)
    rw [List.take_append, List.take_of_length_le hge]
    have hstep : (Reading.step Decoder.tag).exec
        ⟨.packed ⟨Record.packedText c.tag ++ (Record.packedPayload c).bytes.take
          (n - (Record.packedText c.tag).length), none⟩, h⟩ = (.ok (some c.tag),
        ⟨.packed ⟨(Record.packedPayload c).bytes.take (n - (Record.packedText c.tag).length),
          none⟩, h⟩) := by
      rw [Reading.exec_step, Decoder.tag, Packed.tag_packedText htag]
      rfl
    have hpayload : (Reading.step (Decoder.payload c.type)).exec
        ⟨.packed ⟨(Record.packedPayload c).bytes.take (n - (Record.packedText c.tag).length),
          none⟩, h⟩ = (.error e, ⟨.packed s, h⟩) := by
      rw [Reading.exec_step, Decoder.payload, hs]
      rfl
    refine ⟨e, ⟨.packed s, h⟩, ?_, he⟩
    rw [Reading.exec_bind_ok hstep]
    simp only [readTagged, Scalar.ofTag_tag]
    exact Reading.exec_bind_error hpayload

/-! ### Values of packed streams -/

namespace Reader

variable {r : Reader} {ss : List Snapshot} {tail : Text}

/-- A value is read whatever bytes follow. -/
theorem nextValue_front (hs : s.Kept .packed) (hr : r.Left (s.bytes .packed ++ tail)) (h : Heap) :
    ∃ v r' h', r.nextValue h = (.ok (some v), r', h') ∧ r'.Left tail ∧ h.Grows h' ∧
      h'.Shows (h'.Since h.contexts.size) v s := by
  have hfuel : (s.bytes .packed).length < r.decoder.size + 1 := by
    rw [hr.decoder, Decoder.size, List.length_append]
    omega
  obtain ⟨v, h', hexec, hg, hv⟩ := readRecord_front hs tail h hfuel
  have hrecord : r.record.exec ⟨r.decoder, h⟩
      = (.ok ((some v).map .value), ⟨.packed ⟨tail, none⟩, h'⟩) := by
    rw [record, hr.catalog, hr.version]
    simp only [hr.decoder] at hexec ⊢
    exact hexec
  exact ⟨v, _, h', nextValue_eq hrecord, ⟨hr.catalog, hr.version, rfl⟩, hg, hv⟩

/-- Values are read one after another, whatever bytes follow. -/
theorem reads_front (hss : ∀ s ∈ ss, s.Kept .packed)
    (hr : r.Left (ss.flatMap (Snapshot.bytes .packed) ++ tail)) (h : Heap) :
    ∃ vs r' h', r.Reads h vs r' h' ∧ r'.Left tail ∧ h.Grows h' ∧
      List.Forall₂ (h'.Shows (h'.Since h.contexts.size)) vs ss := by
  induction ss generalizing r h with
  | nil => exact ⟨[], r, h, .nil, hr, .refl h, .nil⟩
  | cons s ss ih =>
    rw [List.flatMap_cons, List.append_assoc] at hr
    obtain ⟨v, r₁, h₁, hnext, hr₁, hg₁, hv⟩ := nextValue_front (hss s List.mem_cons_self) hr h
    obtain ⟨vs, r₂, h₂, hreads, hr₂, hg₂, hvs⟩ :=
      ih (fun t ht => hss t (List.mem_cons_of_mem s ht)) hr₁ h₁
    exact ⟨v :: vs, r₂, h₂, .cons hnext hreads, hr₂, hg₁.trans hg₂,
      .cons (hv.grow hg₂ le_rfl) (hvs.imp fun _ _ hw => hw.grow (.refl h₂) hg₁.size_le)⟩

/-- Where no bytes are left, there is no value. -/
theorem nextValue_left_nil (hr : r.Left []) (h : Heap) :
    ∃ r', r.nextValue h = (.ok none, r', h) := by
  have hexec : r.record.exec ⟨r.decoder, h⟩ = (.ok (Option.map .value none), ⟨r.decoder, h⟩) := by
    rw [record, hr.decoder]
    rfl
  exact ⟨_, nextValue_eq hexec⟩

/-- A scalar that is cut off is an error. -/
theorem nextValue_cut {c : Scalar} (hc : c.Kept .packed) {n : Nat} (hpos : 0 < n)
    (hn : n < ((Piece.scalar c).bytes .packed).length)
    (hr : r.Left (((Piece.scalar c).bytes .packed).take n)) (h : Heap) :
    ∃ e, (r.nextValue h).1 = .error e ∧ e.IsShort := by
  obtain ⟨e, cur, hexec, he⟩ := readRecord_cut hc hpos hn r.catalog r.version r.decoder.size h
  rw [← hr.decoder] at hexec
  refine ⟨e, ?_, he⟩
  rw [nextValue_exec, readValue, Reading.exec_bind_error (x := r.record) hexec]

/-! ### Parts of streams -/

/-- What follows a header is left, and packed records without one are those of a raw stream. -/
theorem start_body {mode : Mode} (hmode : mode = .raw ∨ mode = .binary) {name : Text}
    (hname : name.length ≤ 2 ^ 28) {b : UInt8} (hb : printable b = false) (rest : Text) :
    ∃ r, start Catalog.values (Stream.header mode name ++ b :: rest) = .ok r ∧ r.mode = mode ∧
      r.Left (b :: rest) := by
  rcases hmode with rfl | rfl
  · exact ⟨_, start_raw hb rest, rfl, rfl, rfl, rfl⟩
  · exact ⟨_, start_binary hname (b :: rest), rfl, rfl, rfl, rfl⟩

/-- A packed stream is the header and the records. -/
theorem assemble_packed {mode : Mode} (hmode : mode = .raw ∨ mode = .binary) (name body : Text) :
    Stream.assemble mode name body = Stream.header mode name ++ body := by
  rw [Stream.assemble, if_neg]
  rcases hmode with rfl | rfl <;> decide

/-- A stream that is cut off behind its header is opened in its mode. -/
theorem start_cut {mode : Mode} (hmode : mode = .raw ∨ mode = .binary) {name : Text}
    (hname : name.length ≤ 2 ^ 28) {ss : List Snapshot} (hss : ss ≠ []) {n : Nat} (hpos : 0 < n) :
    ∃ r, start Catalog.values
        (Stream.header mode name ++ (ss.flatMap (Snapshot.bytes .packed)).take n) = .ok r ∧
      r.mode = mode ∧ r.Left ((ss.flatMap (Snapshot.bytes .packed)).take n) := by
  obtain ⟨s, ss, rfl⟩ := List.exists_cons_of_ne_nil hss
  obtain ⟨e, es, hpieces, htag⟩ := s.pieces_head
  obtain ⟨b, rest, hbytes, hb⟩ := Piece.bytes_packed_head htag
  obtain ⟨k, rfl⟩ := Nat.exists_eq_succ_of_ne_zero (Nat.ne_of_gt hpos)
  have hbody : (s :: ss).flatMap (Snapshot.bytes .packed) = b :: (rest
      ++ es.flatMap (Piece.bytes .packed) ++ ss.flatMap (Snapshot.bytes .packed)) := by
    rw [List.flatMap_cons, Snapshot.bytes, hpieces, List.flatMap_cons, hbytes]
    simp only [List.cons_append]
  rw [hbody, List.take_succ_cons]
  exact start_body hmode hname hb _

end Reader

/-! ### Scalars -/

/-- The kinds of values that are written as one record. -/
def Kind.scalars : List Kind := [int, real, bool, text, dateTime, timeSpan]

/-- What a value of such a kind holds is one scalar. -/
theorem Heap.Shows.scalar {live : ContextId → Prop} {v : Value} (hs : h.Shows live v s)
    (hv : v.kind ∈ Kind.scalars) :
    ∃ c : Scalar, v = c.leaf.value ∧ s = .leaf c.leaf ∧ s.pieces = [.scalar c] ∧
      ∀ layout, s.Kept layout → c.Kept layout := by
  rw [hs.kind] at hv
  have hkept : ∀ {a : Leaf} {layout : Layout}, (Snapshot.leaf a).Kept layout → a.Kept layout := by
    rintro a layout ⟨ha⟩
    exact ha
  cases s with
  | leaf a =>
    obtain rfl := Heap.shows_leaf hs
    cases a with
    | int n => exact ⟨.int n, rfl, rfl, rfl, fun _ _ => trivial⟩
    | real x => exact ⟨.real x, rfl, rfl, rfl, fun _ _ => trivial⟩
    | bool b => exact ⟨.bool b, rfl, rfl, rfl, fun _ _ => trivial⟩
    | text t => exact ⟨.text t, rfl, rfl, rfl, fun _ ht => hkept ht⟩
    | dateTime t => exact ⟨.dateTime t, rfl, rfl, rfl, fun _ ht => hkept ht⟩
    | timeSpan d => exact ⟨.timeSpan d, rfl, rfl, rfl, fun _ _ => trivial⟩
    | _ => simp [Snapshot.kind, Leaf.kind, Leaf.value, Value.kind, Kind.scalars] at hv
  | _ => exact absurd hv (by simp [Snapshot.kind, Kind.scalars])

/-! ### Cut streams -/

namespace Writer

/-- The finished stream of the values. -/
def stream (mode : Mode) (name : Text) (h : Heap) (vs : List Value) : Text :=
  (putAll { mode, name } (vs.map fun v w => w.putValue h (some v))).1.finish

/-- A packed stream of values that can be stored is the header and the bytes of what they hold. -/
theorem stream_packed {mode : Mode} (hmode : mode = .raw ∨ mode = .binary) {name : Text}
    {vs : List Value} {ss : List Snapshot} (hvs : ∀ v ∈ vs, h.Storable .packed v)
    (hss : List.Forall₂ (h.Shows fun _ => True) vs ss) :
    stream mode name h vs
      = Stream.header mode name ++ ss.flatMap (Snapshot.bytes .packed) := by
  have hlayout : mode.layout = .packed := by rcases hmode with rfl | rfl <;> rfl
  obtain ⟨ts, hts, -, hput⟩ := putAll_values { mode, name } (hlayout ▸ hvs)
  obtain rfl := Heap.forall₂_unique hss hts fun _ _ _ _ hs ht => hs.unique ht
  rw [stream, hput, finish, List.nil_append, hlayout, Reader.assemble_packed hmode]

end Writer

/-- Values that can be stored hold snapshots that are kept. -/
theorem Heap.shown_kept {vs : List Value} (hvs : ∀ v ∈ vs, h.Storable .packed v) :
    ∃ ss, List.Forall₂ (h.Shows fun _ => True) vs ss ∧ ∀ s ∈ ss, s.Kept .packed := by
  obtain ⟨ss, hss, hall, -⟩ := Writer.putAll_values { mode := .raw, name := [] } hvs
  exact ⟨ss, hss, fun s hs => (hall s hs).kept⟩

/-- The bytes up to a cut are those of the snapshots in front and some of the one that is cut. -/
theorem Snapshot.take_bytes (ss : List Snapshot) (s : Snapshot) (ts : List Snapshot) {k : Nat}
    (hk : k ≤ (s.bytes .packed).length) :
    ((ss ++ s :: ts).flatMap (bytes .packed)).take ((ss.flatMap (bytes .packed)).length + k)
      = ss.flatMap (bytes .packed) ++ (s.bytes .packed).take k := by
  rw [List.flatMap_append, List.take_length_add_append, List.flatMap_cons,
    List.take_append_of_le_length hk]

/-- **A cut stream is never misread.** Of a packed stream that is cut off inside of the bytes of a
value or right behind them, the values in front are read as they were written. If the cut is inside
of a scalar, then there is an error that the bytes end. If it is behind the value, then the value is
read, too, and it is the last one. -/
theorem stream_cut {h : Heap} {mode : Mode} {name : Text} {pre post : List Value} {v : Value}
    {n : Nat} (hmode : mode = .raw ∨ mode = .binary) (hname : name.length ≤ 2 ^ 28)
    (hvs : ∀ u ∈ pre ++ v :: post, h.Storable .packed u)
    (hlow : (Writer.stream mode name h pre).length < n)
    (hhigh : n ≤ (Writer.stream mode name h (pre ++ [v])).length) :
    ∃ (ss : List Snapshot) (s : Snapshot) (r : Reader),
      List.Forall₂ (h.Shows fun _ => True) pre ss ∧ h.Shows (fun _ => True) v s ∧
      Reader.start Catalog.values ((Writer.stream mode name h (pre ++ v :: post)).take n) = .ok r ∧
      r.mode = mode ∧
      ∀ h' : Heap, ∃ ws r' h'', r.Reads h' ws r' h'' ∧ h'.Grows h'' ∧
        List.Forall₂ (h''.Shows (h''.Since h'.contexts.size)) ws ss ∧
        (n < (Writer.stream mode name h (pre ++ [v])).length → v.kind ∈ Kind.scalars →
          ∃ e, (r'.nextValue h'').1 = .error e ∧ e.IsShort) ∧
        (n = (Writer.stream mode name h (pre ++ [v])).length →
          ∃ w r₁ h₁ r₂, r'.nextValue h'' = (.ok (some w), r₁, h₁) ∧ h''.Grows h₁ ∧
            h₁.Shows (h₁.Since h''.contexts.size) w s ∧ r₁.nextValue h₁ = (.ok none, r₂, h₁)) := by
  have hupto : ∀ us ⊆ pre ++ v :: post, ∀ u ∈ us, h.Storable .packed u := fun us hus u hu =>
    hvs u (hus hu)
  obtain ⟨ss, hss, hkept⟩ := Heap.shown_kept (hupto pre (by simp))
  obtain ⟨_, hrest, hkept'⟩ := Heap.shown_kept (hupto (v :: post) (by simp))
  obtain ⟨s, ts, hs, hts, rfl⟩ := List.forall₂_cons_left_iff.mp hrest
  have hv : s.Kept .packed := hkept' s List.mem_cons_self
  have hfront := List.rel_append hss (List.Forall₂.cons hs .nil)
  have hwhole := List.rel_append hss (List.Forall₂.cons hs hts)
  have hlast : (ss ++ [s]).flatMap (Snapshot.bytes .packed)
      = ss.flatMap (Snapshot.bytes .packed) ++ s.bytes .packed := by
    rw [List.flatMap_append, List.flatMap_singleton]
  rw [Writer.stream_packed hmode (hupto pre (by simp)) hss] at hlow
  rw [Writer.stream_packed hmode (hupto (pre ++ [v]) (by simp)) hfront, hlast] at hhigh ⊢
  rw [Writer.stream_packed hmode hvs hwhole]
  simp only [List.length_append] at hlow hhigh ⊢
  obtain ⟨k, rfl⟩ := Nat.exists_eq_add_of_lt hlow
  have hinside : k + 1 ≤ (s.bytes .packed).length := by omega
  have hcut := Snapshot.take_bytes ss s ts hinside
  have hne : ss ++ s :: ts ≠ [] := by simp
  obtain ⟨r, hstart, hr, hleft⟩ := Reader.start_cut hmode hname hne
    (Nat.add_pos_right (ss.flatMap (Snapshot.bytes .packed)).length k.succ_pos)
  rw [hcut] at hstart hleft
  refine ⟨ss, s, r, hss, hs, ?_, hr, fun h' => ?_⟩
  · rw [Nat.add_assoc, Nat.add_assoc, List.take_length_add_append, hcut, hstart]
  obtain ⟨ws, r', h'', hreads, hleft', hg, hws⟩ := Reader.reads_front hkept hleft h'
  refine ⟨ws, r', h'', hreads, hg, hws, fun hlt hscalar => ?_, fun heq => ?_⟩
  · obtain ⟨c, -, -, hpieces, hc⟩ := hs.scalar hscalar
    have hbytes : s.bytes .packed = (Piece.scalar c).bytes .packed := by
      rw [Snapshot.bytes, hpieces, List.flatMap_singleton]
    rw [hbytes] at hleft' hlt
    exact Reader.nextValue_cut (hc _ hv) (Nat.succ_pos k) (by omega) hleft' h''
  · rw [List.take_of_length_le (by omega), ← List.append_nil (s.bytes .packed)] at hleft'
    obtain ⟨w, r₁, h₁, hnext, hend, hg', hw⟩ := Reader.nextValue_front hv hleft' h''
    obtain ⟨r₂, hnone⟩ := Reader.nextValue_left_nil hend h₁
    exact ⟨w, r₁, h₁, r₂, hnext, hg', hw, hnone⟩

/-- The theorem applies to a text of three bytes between two other values. After five bytes of its
record the text is not there; all of its record is the end of the stream. -/
theorem stream_cut_text : (Writer.stream .binary "v" {} [.int 7, .text "abc"]).length = 26 ∧
    (∃ r r' h, Reader.start Catalog.values
        ((Writer.stream .binary "v" {} [.int 7, .text "abc", .bool true]).take 20) = .ok r ∧
      r.mode = .binary ∧ r.Reads {} [.int 7] r' h ∧
      ∃ e, (r'.nextValue h).1 = .error e ∧ e.IsShort) ∧
    ∃ r, Reader.start Catalog.values
        ((Writer.stream .binary "v" {} [.int 7, .text "abc", .bool true]).take 26) = .ok r ∧
      ∃ r' h, r.Reads {} [.int 7] r' h ∧ ∃ v r₁ h₁ r₂, r'.nextValue h = (.ok (some v), r₁, h₁) ∧
        r₁.nextValue h₁ = (.ok none, r₂, h₁) := by
  have hlow : (Writer.stream .binary "v" {} [.int 7]).length = 15 := by decide +kernel
  have hhigh : (Writer.stream .binary "v" {} [.int 7, .text "abc"]).length = 26 := by
    decide +kernel
  have hname : (Text.ofString "v").length ≤ 2 ^ 28 := by decide
  have hvs : ∀ u ∈ [.int 7] ++ .text "abc" :: [.bool true],
      Heap.Storable {} .packed u := by
    intro u hu
    refine .of_parts ?_ ?_
    · rcases List.mem_cons.mp hu with rfl | hu
      · trivial
      · rcases List.mem_cons.mp hu with rfl | hu
        · exact (by decide : (Text.ofString "abc").length ≤ 2 ^ 28)
        · rw [List.mem_singleton.mp hu]
          trivial
    · rintro w ⟨⟩ <;> simp at hu
  have hseven : ∀ {h h' : Heap} {live live' ss ws},
      List.Forall₂ (h.Shows live) [.int 7] ss → List.Forall₂ (h'.Shows live') ws ss →
      ws = [.int 7] := by
    intro h h' live live' ss ws hss hws
    obtain ⟨s, ts, hs, hnil, rfl⟩ := List.forall₂_cons_left_iff.mp hss
    obtain rfl := hs.unique (.leaf rfl : h.Shows live (.int 7) (.leaf (.int 7)))
    obtain ⟨w, us, hw, hnil', rfl⟩ := List.forall₂_cons_right_iff.mp hws
    cases hnil
    cases hnil'
    rw [Heap.shows_leaf hw]
    rfl
  refine ⟨hhigh, ?_, ?_⟩
  · obtain ⟨ss, s, r, hss, -, hstart, hmode, hreads⟩ :=
      stream_cut (n := 20) (.inr rfl) hname hvs (by omega) (by rw [List.singleton_append]; omega)
    obtain ⟨ws, r', h, hread, -, hws, hcut, -⟩ := hreads {}
    obtain rfl := hseven hss hws
    exact ⟨r, r', h, hstart, hmode, hread, hcut (by rw [List.singleton_append]; omega) (by decide)⟩
  · obtain ⟨ss, s, r, hss, -, hstart, hmode, hreads⟩ :=
      stream_cut (n := 26) (.inr rfl) hname hvs (by omega) (by rw [List.singleton_append]; omega)
    obtain ⟨ws, r', h, hread, -, hws, -, hlast⟩ := hreads {}
    obtain rfl := hseven hss hws
    obtain ⟨w, r₁, h₁, r₂, hnext, -, -, hend⟩ := hlast (by rw [List.singleton_append]; omega)
    exact ⟨r, hstart, r', h, hread, w, r₁, h₁, r₂, hnext, hend⟩

end Reckoner
