import Mathlib.Tactic
import Reckoner.Proofs.Inflate
import Reckoner.Proofs.Storable

/-!
# Streams read back

A reader finds out the mode of a finished stream by its first bytes: streams with a header start
with the magic bytes of their mode, a stream of lines has only bytes that can be printed, and a
raw stream starts with the length of a tag, which cannot be printed. The header gives back the
version and the name; then the values come in order, up to the end.
-/

namespace Reckoner

variable {layout : Layout}

/-! ### First bytes -/

/-- The tag of a record. -/
def Piece.tag : Piece → Text
  | scalar s => s.tag
  | opening t => t

/-- The tags that a value starts with. -/
def Snapshot.headTags : List Text :=
  ["int", "double", "string", "bool", "datetime", "timespan", "point", "vector", "pointvector",
    "matrix", "array", "list", "context"]

theorem Snapshot.pieces_head (s : Snapshot) :
    ∃ e es, s.pieces = e :: es ∧ e.tag ∈ headTags := by
  cases s with
  | leaf a =>
    cases a <;> refine ⟨_, _, rfl, ?_⟩ <;> simp only [Piece.tag, Scalar.tag] <;> decide
  | array elem items => exact ⟨_, _, rfl, by decide⟩
  | list items => exact ⟨_, _, rfl, by decide⟩
  | context vars => exact ⟨_, _, rfl, by decide⟩

/-- In a stream of lines the first byte is a small letter. -/
theorem Piece.bytes_lines_head {e : Piece} (he : e.tag ∈ Snapshot.headTags) :
    ∃ b rest, e.bytes .lines = b :: rest ∧ 97 ≤ b := by
  have hall : ∀ t ∈ Snapshot.headTags,
      ∃ b ∈ (Token.escape t).head?, 97 ≤ b := by decide
  obtain ⟨b, hb, hle⟩ := hall _ he
  obtain ⟨rest, hrest⟩ : ∃ rest, Token.escape e.tag = b :: rest := by
    cases ht : Token.escape e.tag with
    | nil =>
      rw [ht] at hb
      cases hb
    | cons c rest =>
      rw [ht] at hb
      exact ⟨rest, by rw [Option.mem_some.mp hb]⟩
  rw [bytes_lines]
  cases e with
  | opening t =>
    refine ⟨b, rest ++ [10], ?_, hle⟩
    have hline : (opening t).line = Token.escape t := rfl
    rw [hline, show Token.escape t = b :: rest from hrest, List.cons_append]
  | scalar s =>
    refine ⟨b, rest ++ 9 :: Token.escape s.token ++ [10], ?_, hle⟩
    have hline : (scalar s).line = Token.escape s.tag ++ 9 :: Token.escape s.token := by
      simp only [line, tokens, List.map_cons, List.map_nil, Text.join, List.append_assoc]
      rfl
    rw [hline, show Token.escape s.tag = b :: rest from hrest]
    simp only [List.cons_append]

/-- In a packed stream the first byte is the length of a tag, which cannot be printed. -/
theorem Piece.bytes_packed_head {e : Piece} (he : e.tag ∈ Snapshot.headTags) :
    ∃ b rest, e.bytes .packed = b :: rest ∧ printable b = false := by
  have hall : ∀ t ∈ Snapshot.headTags, t.length < 128 ∧ printable t.length.toUInt8 = false := by
    decide
  obtain ⟨hlen, hraw⟩ := hall _ he
  have htext : Record.packedText e.tag = e.tag.length.toUInt8 :: e.tag := by
    rw [Record.packedText, Varint.encode_small hlen, List.singleton_append]
  cases e with
  | opening t => exact ⟨_, t, htext, hraw⟩
  | scalar s =>
    refine ⟨_, s.tag ++ (Record.packedPayload s).bytes, ?_, hraw⟩
    have hbytes : (scalar s).bytes .packed
        = Record.packedText s.tag ++ (Record.packedPayload s).bytes := rfl
    rw [hbytes, show Record.packedText s.tag = _ from htext, List.cons_append]
    rfl

theorem Piece.printable_lines {es : List Piece} {b : UInt8}
    (hb : b ∈ es.flatMap (Piece.bytes .lines)) : printable b = true := by
  unfold printable
  rcases mem_lines hb with rfl | rfl | ⟨hle, hne⟩
  · rfl
  · rfl
  · simp [hle, hne]

/-! ### The mode -/

namespace Reader

theorem not_isPrefixOf (magic : Text) {t : Text} (ht : ∀ b ∈ t.head?, b ≠ 73)
    (hmagic : magic.head? = some 73) : magic.isPrefixOf (t.take sniffLength) = false := by
  rw [Bool.eq_false_iff]
  intro hprefix
  obtain ⟨rest, hrest⟩ := List.isPrefixOf_iff_prefix.mp hprefix
  cases magic with
  | nil => cases hmagic
  | cons c magic =>
    obtain rfl : c = 73 := by simpa using hmagic
    cases t with
    | nil => cases hrest
    | cons b t =>
      rw [sniffLength, List.take_succ_cons, List.cons_append] at hrest
      exact ht b rfl (List.cons.inj hrest).1.symm

/-- Bytes that do not start like the magic bytes belong to no header. -/
theorem detect_of_head {t : Text} (ht : ∀ b ∈ t.head?, b ≠ 73) :
    detect t = if (t.take sniffLength).all printable then .text else .raw := by
  have hbinary := not_isPrefixOf "IEB1" ht rfl
  have hcompressed := not_isPrefixOf "IEZ1" ht rfl
  simp only [detect, List.find?, Mode.magic?, hbinary, hcompressed]

/-- Lines do not start like the magic bytes. -/
theorem head_lines {es : List Piece} (hes : ∀ e ∈ es.head?, e.tag ∈ Snapshot.headTags) :
    ∀ b ∈ (es.flatMap (Piece.bytes .lines)).head?, b ≠ 73 := by
  cases es with
  | nil =>
    intro b hb
    cases hb
  | cons e es =>
    obtain ⟨c, rest, hbytes, hle⟩ := Piece.bytes_lines_head (hes e rfl)
    rw [List.flatMap_cons, hbytes]
    rintro b hb rfl
    obtain rfl : c = 73 := by simpa using hb
    exact absurd hle (by decide)

/-- Lines are detected as text. -/
theorem detect_lines {es : List Piece} (hes : ∀ e ∈ es.head?, e.tag ∈ Snapshot.headTags) :
    detect (es.flatMap (Piece.bytes .lines)) = .text := by
  have hall : ((es.flatMap (Piece.bytes .lines)).take sniffLength).all printable = true := by
    rw [List.all_eq_true]
    exact fun b hb => Piece.printable_lines (List.mem_of_mem_take hb)
  rw [detect_of_head (head_lines hes), if_pos hall]

/-- Bytes of which the first one cannot be printed are detected as a raw stream. -/
theorem detect_raw {b : UInt8} (hb : printable b = false) (rest : Text) :
    detect (b :: rest) = .raw := by
  rw [detect_of_head]
  · rw [if_neg]
    rw [sniffLength, List.take_succ_cons, List.all_cons, hb]
    simp
  · rintro c hc rfl
    obtain rfl : b = 73 := by simpa using hc
    exact absurd hb (by decide)

theorem isPrefixOf_take (magic rest : Text) (hlen : magic.length ≤ sniffLength) :
    magic.isPrefixOf ((magic ++ rest).take sniffLength) = true := by
  rw [List.isPrefixOf_iff_prefix, List.take_append, List.take_of_length_le hlen]
  exact List.prefix_append _ _

theorem detect_binary (rest : Text) : detect (Text.ofString "IEB1" ++ rest) = .binary := by
  have hbinary := isPrefixOf_take "IEB1" rest (by decide)
  simp only [detect, List.find?, Mode.magic?, hbinary]

theorem detect_compressed (rest : Text) : detect (Text.ofString "IEZ1" ++ rest) = .compressed := by
  have hcompressed := isPrefixOf_take "IEZ1" rest (by decide)
  have hbinary : (Text.ofString "IEB1").isPrefixOf
      ((Text.ofString "IEZ1" ++ rest).take sniffLength) = false := rfl
  simp only [detect, List.find?, Mode.magic?, hbinary, hcompressed]

/-! ### The header -/

/-- The header gives back the version and the name. -/
theorem header_read (mode : Mode) {magic name : Text} (hmagic : mode.magic? = some magic)
    (hlen : magic.length = 4) (hname : name.length ≤ 2 ^ 28) (body : Text) :
    header (Stream.header mode name ++ body) = .ok (1, name, body) := by
  have hmax : ¬ maxToken < name.length := by simp only [maxToken, Nat.pow_eq]; omega
  have hversion : (Record.littleEndian 4 Stream.version).length = 4 := rfl
  have hparts : Stream.header mode name ++ body = magic ++ (Record.littleEndian 4 Stream.version
      ++ (Varint.encode name.length ++ (name ++ body))) := by
    simp only [Stream.header, hmagic, Record.packedText, List.append_assoc]
  have htake := fun rest => Packed.take_append "magic" magic rest none
  have htake' := fun rest =>
    Packed.take_append "version" (Record.littleEndian 4 Stream.version) rest none
  rw [hlen] at htake
  rw [hversion] at htake'
  rw [header, hparts, htake]
  simp only [Step.bind, htake', Packed.varint_encode (n := name.length) (by omega), if_neg hmax,
    Packed.take_append]
  rfl

/-! ### One value -/

/-- The reader stands in front of the given records, which are all that is left. -/
structure Before (r : Reader) (layout : Layout) (es : List Piece) : Prop where
  catalog : r.catalog = Catalog.values
  version : r.version = 1
  decoder : r.decoder.At layout es

variable {r : Reader} {h : Heap} {es : List Piece}

/-- The bytes or lines that are left allow for the records of the next value. -/
theorem Before.length_le {s : Snapshot} (hr : r.Before layout (s.pieces ++ es)) :
    s.pieces.length ≤ r.decoder.size + 1 := by
  have := Decoder.length_le_size hr.decoder
  rw [List.length_append] at this
  omega

/-- Records that are read as a value are taken off the stream. -/
theorem exec_record {front : List Piece} {s : Snapshot} (hr : r.Before layout (front ++ es))
    (hfront : Reading.Takes layout front (readRecord Catalog.values 1 (r.decoder.size + 1))
      (Holding s)) (h : Heap) :
    ∃ v d h', r.record.exec ⟨r.decoder, h⟩ = (.ok (some (.value v)), ⟨d, h'⟩) ∧
      d.At layout es ∧ h.Grows h' ∧ h'.Shows (h'.Since h.contexts.size) v s := by
  obtain ⟨_, d, h', hexec, hd, hg, v, rfl, hv⟩ := hfront es r.decoder h hr.decoder
  rw [record, hr.catalog, hr.version]
  exact ⟨v, d, h', hexec, hd, hg, hv⟩

theorem exec_record_some {s : Snapshot} (hr : r.Before layout (s.pieces ++ es))
    (hs : s.Kept layout) (h : Heap) :
    ∃ v d h', r.record.exec ⟨r.decoder, h⟩ = (.ok (some (.value v)), ⟨d, h'⟩) ∧
      d.At layout es ∧ h.Grows h' ∧ h'.Shows (h'.Since h.contexts.size) v (s.normal layout) :=
  exec_record hr (readsBack hs hr.length_le) h

theorem exec_record_none (hr : r.Before layout []) (h : Heap) :
    ∃ d, r.record.exec ⟨r.decoder, h⟩ = (.ok none, ⟨d, h⟩) ∧ d.At layout [] := by
  obtain ⟨d, htag, hd⟩ := Decoder.at_end hr.decoder
  refine ⟨d, ?_, hd⟩
  rw [record, readRecord, Reading.exec_bind_ok (by rw [Reading.exec_step, htag])]
  rfl

/-- The next value is what the next record holds. -/
theorem nextValue_eq {o : Option Value} {cur : Cursor}
    (hexec : r.record.exec ⟨r.decoder, h⟩ = (.ok (o.map .value), cur)) :
    r.nextValue h = (.ok o, { r with decoder := cur.decoder }, cur.heap) := by
  have hrun : (readValue r.record).exec ⟨r.decoder, h⟩ = (.ok o, cur) := by
    rw [readValue, Reading.exec_bind_ok hexec]
    cases o with
    | none => rfl
    | some v => rfl
  rw [nextValue_exec, hrun]

/-! ### All values -/

/-- Reading gives values that hold the snapshots, in new contexts, and then the end. -/
def Yields (r : Reader) (h : Heap) (limit : Nat) (ss : List Snapshot) : Prop :=
  ∃ vs h', nextAll nextValue false limit r h
      = (vs.map (fun v => .ok (some v)) ++ [.ok none], h') ∧
    h.Grows h' ∧ List.Forall₂ (h'.Shows (h'.Since h.contexts.size)) vs ss

/-- A value at the front is read before those that follow. -/
theorem yields_cons {front : List Piece} {s : Snapshot} {ss : List Snapshot} {limit : Nat}
    (hr : r.Before layout (front ++ es))
    (hfront : Reading.Takes layout front (readRecord Catalog.values 1 (r.decoder.size + 1))
      (Holding s))
    (hrest : ∀ {r : Reader} {h : Heap}, r.Before layout es → r.Yields h limit ss) :
    r.Yields h (limit + 1) (s :: ss) := by
  obtain ⟨v, d, h₁, hexec, hd, hg₁, hv⟩ := exec_record hr hfront h
  obtain ⟨vs, h₂, hall, hg₂, hvs⟩ := hrest (r := { r with decoder := d }) (h := h₁)
    ⟨hr.catalog, hr.version, hd⟩
  refine ⟨v :: vs, h₂, ?_, hg₁.trans hg₂, .cons (hv.grow hg₂ le_rfl)
    (hvs.imp fun _ _ hw => hw.grow (.refl h₂) hg₁.size_le)⟩
  rw [nextAll, nextValue_eq (o := some v) hexec]
  simp only [hall, List.map_cons, List.cons_append]

/-- **The values of a stream are read back in order, and then it ends.** -/
theorem nextAll_back {ss : List Snapshot} (hss : ∀ s ∈ ss, s.Storable layout)
    (hr : r.Before layout (ss.flatMap Snapshot.pieces)) {limit : Nat} (hlimit : ss.length < limit) :
    r.Yields h limit (ss.map (Snapshot.normal layout)) := by
  induction ss generalizing r h limit with
  | nil =>
    obtain ⟨limit, rfl⟩ := Nat.exists_eq_succ_of_ne_zero (Nat.ne_of_gt hlimit)
    obtain ⟨d, hexec, -⟩ := exec_record_none hr h
    refine ⟨[], h, ?_, .refl h, .nil⟩
    rw [nextAll, nextValue_eq (o := none) hexec]
    rfl
  | cons s ss ih =>
    obtain ⟨limit, rfl⟩ := Nat.exists_eq_succ_of_ne_zero (Nat.ne_of_gt (Nat.zero_lt_of_lt hlimit))
    rw [List.flatMap_cons] at hr
    exact yields_cons hr (readsBack (hss s List.mem_cons_self).kept hr.length_le) fun hr' =>
      ih (fun t ht => hss t (List.mem_cons_of_mem s ht)) hr' (Nat.lt_of_succ_lt_succ hlimit)

/-! ### Finished streams -/

theorem bytes_flatMap (layout : Layout) (ss : List Snapshot) :
    ss.flatMap (Snapshot.bytes layout)
      = (ss.flatMap Snapshot.pieces).flatMap (Piece.bytes layout) := by
  rw [List.flatMap_assoc]
  rfl

/-- Records without a header are those of a raw stream. -/
theorem start_raw {b : UInt8} (hb : printable b = false) (rest : Text) :
    start Catalog.values (b :: rest)
      = .ok ⟨.raw, Stream.version, [], Catalog.values, .packed ⟨b :: rest, none⟩⟩ := by
  rw [start, detect_raw hb]

/-- What follows the header of a binary stream are its records. -/
theorem start_binary {name : Text} (hname : name.length ≤ 2 ^ 28) (body : Text) :
    start Catalog.values (Stream.header .binary name ++ body)
      = .ok ⟨.binary, 1, name, Catalog.values, .packed ⟨body, none⟩⟩ := by
  have hdetect : detect (Stream.header .binary name ++ body) = .binary := by
    simp only [Stream.header, Mode.magic?, List.append_assoc]
    exact detect_binary _
  rw [start, hdetect]
  simp only [header_read .binary rfl rfl hname]
  rfl

/-- What follows the header of a compressed stream is inflated. -/
theorem start_compressed {name : Text} (hname : name.length ≤ 2 ^ 28) (body : Text) :
    start Catalog.values (Stream.header .compressed name ++ Deflate.store body)
      = .ok ⟨.compressed, 1, name, Catalog.values, .packed ⟨body, none⟩⟩ := by
  have hdetect : detect (Stream.header .compressed name ++ Deflate.store body) = .compressed := by
    simp only [Stream.header, Mode.magic?, List.append_assoc]
    exact detect_compressed _
  rw [start, hdetect]
  simp only [header_read .compressed rfl rfl hname]
  simp only [bind, Except.bind, Deflate.inflate_store]
  rfl

/-- Lines are those of a stream of text. -/
theorem start_text {es : List Piece} (hes : ∀ e ∈ es.head?, e.tag ∈ Snapshot.headTags) :
    start Catalog.values (es.flatMap (Piece.bytes .lines))
      = .ok ⟨.text, Stream.version, [], Catalog.values, .lines ⟨es.map Piece.line, [], 0⟩⟩ := by
  rw [start, detect_lines hes, Lines.ofText, Lines.split_pieces]

/-- **A finished stream is opened**: its mode is detected and its header read back. Raw streams
have no mark, so one without any record is taken for a text. -/
theorem start_pieces {mode : Mode} (hmode : mode ∈ Mode.named) {name : Text}
    (hname : name.length ≤ 2 ^ 28) {es : List Piece}
    (hes : ∀ e ∈ es.head?, e.tag ∈ Snapshot.headTags) :
    ∃ r layout, start Catalog.values
        (Stream.assemble mode name (es.flatMap (Piece.bytes mode.layout))) = .ok r ∧
      r.Before layout es ∧ (es ≠ [] → layout = mode.layout) ∧
      (mode ≠ .raw ∨ es ≠ [] → r.mode = mode) ∧
      (mode = .binary ∨ mode = .compressed → r.name = name) := by
  have hnamed : mode = .text ∨ mode = .binary ∨ mode = .compressed ∨ mode = .raw := by
    simpa [Mode.named] using hmode
  rcases hnamed with rfl | rfl | rfl | rfl
  · exact ⟨_, .lines, start_text hes, ⟨rfl, rfl, 0, rfl⟩, fun _ => rfl, fun _ => rfl, by simp⟩
  · exact ⟨_, .packed, start_binary hname _, ⟨rfl, rfl, rfl⟩, fun _ => rfl, fun _ => rfl,
      fun _ => rfl⟩
  · exact ⟨_, .packed, start_compressed hname _, ⟨rfl, rfl, rfl⟩, fun _ => rfl, fun _ => rfl,
      fun _ => rfl⟩
  · cases es with
    | nil =>
      exact ⟨_, .lines, start_text hes, ⟨rfl, rfl, 0, rfl⟩, fun h => absurd rfl h, by simp,
        by simp⟩
    | cons e es =>
      obtain ⟨b, rest, hbytes, hb⟩ := Piece.bytes_packed_head (hes e rfl)
      have hbody : (e :: es).flatMap (Piece.bytes .packed)
          = b :: (rest ++ es.flatMap (Piece.bytes .packed)) := by
        rw [List.flatMap_cons, hbytes, List.cons_append]
      refine ⟨⟨.raw, Stream.version, [], Catalog.values,
        .packed ⟨(e :: es).flatMap (Piece.bytes .packed), none⟩⟩, .packed, ?_, ⟨rfl, rfl, rfl⟩,
        fun _ => rfl, fun _ => rfl, by simp⟩
      rw [hbody]
      exact (congrArg _ hbody).trans (start_raw hb _)

theorem head_pieces (ss : List Snapshot) :
    ∀ e ∈ (ss.flatMap Snapshot.pieces).head?, e.tag ∈ Snapshot.headTags := by
  cases ss with
  | nil =>
    intro e he
    cases he
  | cons s ss =>
    obtain ⟨e, es, hpieces, htag⟩ := s.pieces_head
    rw [List.flatMap_cons, hpieces]
    rintro _ ⟨⟩
    exact htag

/-- A finished stream of values is opened in front of their records. -/
theorem start_assemble {mode : Mode} (hmode : mode ∈ Mode.named) {name : Text}
    (hname : name.length ≤ 2 ^ 28) (ss : List Snapshot) :
    ∃ r layout, start Catalog.values
        (Stream.assemble mode name (ss.flatMap (Snapshot.bytes mode.layout))) = .ok r ∧
      r.Before layout (ss.flatMap Snapshot.pieces) ∧ (ss ≠ [] → layout = mode.layout) ∧
      (mode ≠ .raw ∨ ss ≠ [] → r.mode = mode) ∧
      (mode = .binary ∨ mode = .compressed → r.name = name) := by
  obtain ⟨r, layout, hstart, hbefore, hlayout, hdetect, hheader⟩ :=
    start_pieces hmode hname (head_pieces ss)
  have hempty : ss ≠ [] → ss.flatMap Snapshot.pieces ≠ [] := by
    intro hne hnil
    obtain ⟨s, ss, rfl⟩ := List.exists_cons_of_ne_nil hne
    exact pieces_ne_nil s (List.append_eq_nil_iff.mp hnil).1
  exact ⟨r, layout, by rw [bytes_flatMap]; exact hstart, hbefore, fun h => hlayout (hempty h),
    fun h => hdetect (h.imp_right hempty), hheader⟩

end Reader

end Reckoner
