import Reckoner.Proofs.AppendedFields
import Reckoner.Proofs.RevisedRecords
import Reckoner.Proofs.RoundTrip

/-!
# Streams of other writers

A newer writer appends fields to the descriptions of composite values, whose contents are any that
can be written and read, and an older one lacks the last ones. Its streams are read as if it had
the same fields, and what follows in them is read unchanged.
-/

namespace Reckoner

open Reading (Takes)

variable {layout : Layout}

/-! ### Fields that can be appended -/

/-- The stream of a text. -/
def Decoder.ofText : Layout → Text → Decoder
  | .packed, t => .packed ⟨t, none⟩
  | .lines, t => .lines (Lines.ofText t)

theorem Decoder.at_ofText (layout : Layout) (es : List Piece) :
    (ofText layout (es.flatMap (Piece.bytes layout))).At layout es := by
  cases layout with
  | packed => rfl
  | lines => exact ⟨0, congrArg Decoder.lines (by rw [Lines.ofText, Lines.split_pieces])⟩

/-- The bytes are read as one thing: the reader takes them off a stream in which another record
follows, and leaves that. -/
def Readable (layout : Layout) (t : Text) : Prop :=
  ∃ (e : Piece) (fuel : Nat), ∀ h : Heap, ∃ x d' h', (readRecord Catalog.values 1 fuel).exec
    ⟨.ofText layout (t ++ e.bytes layout), h⟩ = (.ok (some x), ⟨d', h'⟩) ∧ d'.At layout [e]

theorem legible_of_readable {es : List Piece}
    (hes : Readable layout (es.flatMap (Piece.bytes layout))) : Legible layout es := by
  obtain ⟨e, fuel, hread⟩ := hes
  have hbytes : es.flatMap (Piece.bytes layout) ++ e.bytes layout
      = (es ++ [e]).flatMap (Piece.bytes layout) := by
    rw [List.flatMap_append, List.flatMap_singleton]
  rw [hbytes] at hread
  exact ⟨e, fuel, _, Decoder.at_ofText layout _, hread⟩

theorem readable_of_legible {es : List Piece} (hes : Legible layout es) :
    Readable layout (es.flatMap (Piece.bytes layout)) := by
  have htakes := hes.takes (Nat.lt_succ_self _)
  refine ⟨.label [], (Piece.extent layout es).succ, fun h => ?_⟩
  have hat := Decoder.at_ofText layout (es ++ [.label []])
  rw [List.flatMap_append, List.flatMap_singleton] at hat
  obtain ⟨x, d', h', hexec, hd', -, hx⟩ := htakes _ _ h hat
  obtain ⟨x, rfl⟩ := Option.ne_none_iff_exists'.mp hx
  exact ⟨x, d', h', hexec, hd'⟩

namespace Heap

variable {h : Heap} {v : Value} {f : Field}

/-- The field can be appended to a description: what it holds can be written and read. -/
structure Appendable (h : Heap) (layout : Layout) (f : Field) : Prop where
  /-- What it holds has a stored form. -/
  written : (h.writeDatum layout f.value).error = none
  /-- That form is read back as one content, whatever it is. -/
  readable : Readable layout (h.writeDatum layout f.value).bytes
  brief : Brief (f.name, f.comment)

/-- A field that can be appended is written as legible records. -/
theorem Appendable.pieces (hf : h.Appendable layout f) : ∃ es, Piece.Written layout es ∧
    Legible layout es ∧ h.FieldWritten layout f (es, f.name, f.comment) := by
  obtain ⟨es, hes⟩ := h.writeDatum_recorded layout f.value hf.written
  have hok := hf.written
  rw [hes] at hok
  have hread := hf.readable
  rw [hes, Piece.writeAll_eq hok] at hread
  exact ⟨es, Piece.writeAll_error.mp hok, legible_of_readable hread, hes, rfl⟩

/-- Fields that can be appended are written as legible records. -/
theorem pieces_of_appendable {fields : List Field} (hf : ∀ f ∈ fields, h.Appendable layout f) :
    ∃ es, List.Forall₂ (h.FieldWritten layout) fields es ∧
      ∀ e ∈ es, Piece.Written layout e.1 ∧ Legible layout e.1 ∧ Brief e.2 := by
  induction fields with
  | nil => exact ⟨[], .nil, fun _ he => by cases he⟩
  | cons f fields ih =>
    obtain ⟨es, hok, hlegible, hwrite⟩ := (hf f List.mem_cons_self).pieces
    obtain ⟨rest, hrest, hall⟩ := ih fun g hg => hf g (List.mem_cons_of_mem f hg)
    exact ⟨(es, f.name, f.comment) :: rest, .cons hwrite hrest,
      List.forall_mem_cons.mpr ⟨⟨hok, hlegible, (hf f List.mem_cons_self).brief⟩, hall⟩⟩

/-- What is written as legible records can be appended. -/
theorem appendable_of_legible {es : List Piece}
    (hf : h.FieldWritten layout f (es, f.name, f.comment)) (hes : Legible layout es)
    (hok : Piece.Written layout es) (hbrief : Brief (f.name, f.comment)) :
    h.Appendable layout f := by
  have hwrite := Piece.writeAll_eq (Piece.writeAll_error.mpr hok)
  rw [← hf.1] at hwrite
  refine ⟨congrArg Emission.error hwrite, ?_, hbrief⟩
  rw [hwrite]
  exact readable_of_legible hes

/-- A field with a color can be appended, although no value is read from it. -/
theorem appendable_color (h : Heap) (layout : Layout) (c : Color) {name comment : Text}
    (hbrief : Brief (name, comment)) : h.Appendable layout ⟨some (.color c), name, comment⟩ := by
  refine appendable_of_legible (fieldWritten_scalar (.color c) name comment)
    (legible_scalar (color_readAs layout c)) ?_ hbrief
  intro e he
  rw [List.mem_singleton.mp he]
  cases layout <;> rfl

/-- The records of a value that can be stored can be written. -/
theorem Storable.pieces_written {live : ContextId → Prop} {s : Snapshot}
    (hv : h.Storable layout v) (hs : h.Shows live v s) : Piece.Written layout s.pieces := by
  rw [← Piece.writeAll_error, ← hv.write_eq hs]
  obtain ⟨_, -, -, hwrite⟩ := hv.written
  exact congrArg Emission.error hwrite

/-- A field with a value that can be stored can be appended, whatever is nested in the value. -/
theorem Storable.appendable (hv : h.Storable layout v) {name comment : Text}
    (hbrief : Brief (name, comment)) :
    h.Appendable layout ⟨some (.value v), name, comment⟩ := by
  obtain ⟨s, hs, hstorable, -⟩ := hv.written
  have hdatum : h.writeDatum layout (some (.value v)) = v.write layout (h.outerOutlet layout) := by
    cases v with
    | handle hostType => exact (hv.fits _ .refl).elim
    | _ => rfl
  exact appendable_of_legible ⟨hdatum.trans (hv.write_eq hs), rfl⟩ (legible_pieces hstorable.kept)
    (hv.pieces_written hs) hbrief

end Heap

/-! ### Streams -/

variable {h : Heap} {mode : Mode} {name : Text} {level : Int} {vs : List Value}

/-- A stream starts with what is put out and goes on with values. It is written without an error
and opened in its mode, and reading gives what the snapshot holds, then the values in order, and
then the end. -/
def Heap.StreamReads (h : Heap) (mode : Mode) (name : Text) (level : Int) (e : Emission)
    (vs : List Value) (s : Snapshot) : Prop :=
  ∃ (ss : List Snapshot) (w w' : Writer) (r : Reader),
    List.Forall₂ (h.Shows fun _ => True) vs ss ∧ Writer.create mode name level = .ok w ∧
    w.putAll ((fun w => w.put e) :: vs.map fun v w => w.putValue h (some v))
      = (w', .ok () :: vs.map fun _ => .ok ()) ∧
    Reader.start Catalog.values w'.finish = .ok r ∧ r.mode = mode ∧
    ∀ (h' : Heap) (limit : Nat), vs.length + 1 < limit →
      r.Yields h' limit (s.normal mode.layout :: ss.map (Snapshot.normal mode.layout))

/-- Records that are read as a value at the front of a stream leave what follows as it is. -/
theorem streamReads_of_takes (hmode : mode ∈ Mode.named) (hname : name.length ≤ 2 ^ 28)
    (hlevel : -2 ≤ level ∧ level ≤ 9) (hvs : ∀ v ∈ vs, h.Storable mode.layout v) {e : Piece}
    {es : List Piece} {s : Snapshot} (htag : e.tag ∈ Snapshot.headTags)
    (hes : Piece.Written mode.layout (e :: es))
    (htakes : ∀ {fuel : Nat}, Piece.extent mode.layout (e :: es) ≤ fuel →
      Takes mode.layout (e :: es) (readRecord Catalog.values 1 (fuel + 1))
        (Holding (s.normal mode.layout))) :
    h.StreamReads mode name level (Piece.writeAll mode.layout (e :: es)) vs s := by
  obtain ⟨ss, hss, hstorable, hput⟩ := Writer.putAll_values
    { mode, name, body := (e :: es).flatMap (Piece.bytes mode.layout) } hvs
  have hhead : ∀ f ∈ (e :: es ++ ss.flatMap Snapshot.pieces).head?, f.tag ∈ Snapshot.headTags := by
    rintro _ ⟨⟩
    exact htag
  have hne : e :: es ++ ss.flatMap Snapshot.pieces ≠ [] := List.cons_ne_nil _ _
  obtain ⟨r, layout, hstart, hbefore, hlayout, hdetect, -⟩ :=
    Reader.start_pieces hmode hname hhead
  obtain rfl := hlayout hne
  rw [List.flatMap_append, ← Reader.bytes_flatMap] at hstart
  have hwriter : Writer.putAll { mode, name }
      ((fun w => w.put (Piece.writeAll mode.layout (e :: es)))
        :: vs.map fun v w => w.putValue h (some v))
        = ({ mode, name, body := (e :: es).flatMap (Piece.bytes mode.layout)
              ++ ss.flatMap (Snapshot.bytes mode.layout) }, .ok () :: vs.map fun _ => .ok ()) := by
    rw [Writer.putAll, Writer.put, Piece.writeAll_eq (Piece.writeAll_error.mpr hes)]
    simp only [List.nil_append, hput]
  refine ⟨ss, { mode, name }, _, r, hss, Writer.create_named hmode name hlevel, hwriter, hstart,
    hdetect (.inr hne), fun h' limit hlimit => ?_⟩
  obtain ⟨limit, rfl⟩ := Nat.exists_eq_succ_of_ne_zero (Nat.ne_of_gt (Nat.zero_lt_of_lt hlimit))
  have hcount : ss.length < limit := by
    rw [← hss.length_eq]
    exact Nat.lt_of_succ_lt_succ hlimit
  have hfuel : Piece.extent mode.layout (e :: es) ≤ r.decoder.size := by
    rw [Decoder.size_of_at hbefore.decoder, Piece.extent_append]
    exact Nat.le_add_right _ _
  exact Reader.yields_cons hbefore (htakes hfuel) fun hr =>
    Reader.nextAll_back hstorable hr hcount

/-- The tag of a description is one that a value starts with. -/
theorem Description.tag_mem {s : Snapshot} {d : Description} (hd : s.description? = some d) :
    d.tag ∈ Snapshot.headTags := by
  unfold Snapshot.description? at hd
  split at hd
  all_goals cases hd
  all_goals dsimp only [ofLength]
  all_goals decide

/-- A description that goes on can be written if what it goes on with can. -/
theorem Description.extended_written {s : Snapshot} {d : Description}
    (hd : s.description? = some d) (hs : Piece.Written layout s.pieces)
    {extras : List (List Piece × Text × Text)} (hextras : ∀ e ∈ extras, Piece.Written layout e.1) :
    Piece.Written layout (d.extended extras) := by
  rw [Description.pieces_eq hd, Piece.scalarBlock, Piece.written_cons, Piece.written_append,
    Piece.written_block] at hs
  obtain ⟨hopening, hfields, hbody⟩ := hs
  rw [extended, Piece.written_cons, Piece.written_append, Piece.written_block]
  exact ⟨hopening, List.forall_mem_append.mpr ⟨hfields, hextras⟩, hbody⟩

/-- Fields appended to the description of a value do not disturb the reading of the value and of
those that follow. -/
theorem streamReads_appended (hmode : mode ∈ Mode.named) (hname : name.length ≤ 2 ^ 28)
    (hlevel : -2 ≤ level ∧ level ≤ 9) (hvs : ∀ v ∈ vs, h.Storable mode.layout v) {v : Value}
    {extras : List Field} (hv : h.Storable mode.layout v) (hkind : v.kind ∈ Kind.described)
    (hlen : extras.length + 2 < 2 ^ 63) (hextras : ∀ f ∈ extras, h.Appendable mode.layout f) :
    ∃ s, h.Shows (fun _ => True) v s ∧ h.StreamReads mode name level
      (h.writeDescribed mode.layout v (v.description ++ extras)) vs s := by
  obtain ⟨s, hs, hstorable, -⟩ := hv.written
  obtain ⟨d, hd⟩ := Heap.description_of_kind hs hkind
  obtain ⟨es, hfields, hes⟩ := Heap.pieces_of_appendable hextras
  have hwrite : h.writeDescribed mode.layout v (v.description ++ extras)
      = Piece.writeAll mode.layout (d.extended es) :=
    Heap.writeDescribed_eq hv hs hd (List.rel_append (Heap.description_written hs hd) hfields)
  refine ⟨s, hs, ?_⟩
  rw [hwrite]
  have hok : Piece.Written mode.layout (d.extended es) :=
    Description.extended_written hd (hv.pieces_written hs) fun e he => (hes e he).1
  refine streamReads_of_takes hmode hname hlevel hvs (Description.tag_mem hd) hok fun hfuel => ?_
  rw [hfields.length_eq] at hlen
  exact takes_extended hd hstorable.kept hlen (fun e he => (hes e he).2) hfuel

/-- Missing coordinates of a point are read as zero, and the values that follow as they are. -/
theorem streamReads_known (hmode : mode ∈ Mode.named) (hname : name.length ≤ 2 ^ 28)
    (hlevel : -2 ≤ level ∧ level ≤ 9) (hvs : ∀ v ∈ vs, h.Storable mode.layout v) (p : Point)
    (count : Nat) : h.StreamReads mode name level
      (h.writeDescribed mode.layout (.point p) ((Value.point p).description.take count)) vs
      (.leaf (.point (p.known count))) := by
  have hv : h.Storable mode.layout (.point p) := .of_parts trivial fun w hw => by cases hw
  have hs : h.Shows (fun _ => True) (.point p) (.leaf (.point p)) := .leaf rfl
  have hall : List.Forall₂ (h.FieldWritten mode.layout) (Value.point p).description
      (p.fields.map fun f => ([.scalar f.1], f.2)) := Heap.description_written hs rfl
  have hfields := List.forall₂_take count hall
  rw [← List.map_take] at hfields
  have hwrite : h.writeDescribed mode.layout (.point p) ((Value.point p).description.take count)
      = Piece.writeAll mode.layout
        (.opening "point" :: Piece.scalarBlock (p.fields.take count)) := by
    rw [Heap.writeDescribed_eq hv hs rfl hfields, List.append_nil]
    rfl
  have hok : Piece.Written mode.layout
      (.opening "point" :: Piece.scalarBlock (p.fields.take count)) := by
    have hpoint := hv.pieces_written hs
    rw [Snapshot.pieces, Leaf.pieces, Piece.scalarBlock, Piece.written_cons,
      Piece.written_block] at hpoint
    rw [Piece.scalarBlock, Piece.written_cons, Piece.written_block, List.map_take]
    exact ⟨hpoint.1, fun f hf => hpoint.2 f (List.mem_of_mem_take hf)⟩
  rw [hwrite]
  refine streamReads_of_takes hmode hname hlevel hvs (by decide) hok fun hfuel => ?_
  have hpos : 0 < Piece.extent mode.layout
      (.opening "point" :: Piece.scalarBlock (p.fields.take count)) :=
    Nat.zero_lt_of_lt (Piece.extent_cons _ _)
  exact takes_known (readsScalars (hpos.trans_le hfuel)) p count

/-- **Fields of other writers do not disturb.** Appended to the description of a value that can be
stored, fields with whatever can be written and read, objects among them, leave the value and all
that follow as they are, in every mode; as many can be appended as a count can tell. A point whose
description lacks the last fields is read with zero for the missing coordinates, and what follows
it as it is. -/
theorem stream_revised (hmode : mode ∈ Mode.named) (hname : name.length ≤ 2 ^ 28)
    (hlevel : -2 ≤ level ∧ level ≤ 9) (hvs : ∀ v ∈ vs, h.Storable mode.layout v) :
    (∀ (v : Value) (extras : List Field), h.Storable mode.layout v → v.kind ∈ Kind.described →
      extras.length + 2 < 2 ^ 63 → (∀ f ∈ extras, h.Appendable mode.layout f) →
      ∃ s, h.Shows (fun _ => True) v s ∧ h.StreamReads mode name level
        (h.writeDescribed mode.layout v (v.description ++ extras)) vs s) ∧
    ∀ (p : Point) (count : Nat), h.StreamReads mode name level
      (h.writeDescribed mode.layout (.point p) ((Value.point p).description.take count)) vs
      (.leaf (.point (p.known count))) :=
  ⟨fun _ _ hv hkind hlen hextras =>
    streamReads_appended hmode hname hlevel hvs hv hkind hlen hextras,
    streamReads_known hmode hname hlevel hvs⟩

/-- The theorem applies to a binary stream of a list that has a color and a context behind its
length, and of a point that has only one field. -/
theorem stream_revised_binary :
    (∃ s, Heap.oneVariable.Shows (fun _ => True) (.list [.bool true]) s ∧
      Heap.oneVariable.StreamReads .binary "v" 9 (Heap.oneVariable.writeDescribed .packed
        (.list [.bool true]) ((Value.list [.bool true]).description
          ++ [⟨some (.color ⟨1, 2, 3, 4⟩), "shade", []⟩,
            ⟨some (.value (.context 0)), "owner", "a context"⟩])) [.context 0] s) ∧
    Heap.oneVariable.StreamReads .binary "v" 9 (Heap.oneVariable.writeDescribed .packed
      (.point ⟨.one, .one⟩) ((Value.point ⟨.one, .one⟩).description.take 1)) [.context 0]
      (.leaf (.point ⟨.one, .zero⟩)) := by
  have hvs : ∀ v ∈ [Value.context 0], Heap.oneVariable.Storable Mode.binary.layout v := by
    intro v hv
    rw [List.mem_singleton.mp hv]
    exact Heap.storable_oneVariable
  have hlist : Heap.oneVariable.Storable Mode.binary.layout (.list [.bool true]) := by
    have hfits : Value.Fits Heap.oneVariable Mode.binary.layout (.list [.bool true]) := by
      show 1 < 2 ^ 63
      decide
    refine .of_parts hfits fun w hw => ?_
    cases hw with
    | list hmem =>
      rw [List.mem_singleton.mp hmem]
      exact .of_parts trivial fun u hu => by cases hu
  have hextras : ∀ f ∈ [(⟨some (.color ⟨1, 2, 3, 4⟩), "shade", []⟩ : Field),
      ⟨some (.value (.context 0)), "owner", "a context"⟩],
      Heap.oneVariable.Appendable Mode.binary.layout f := by
    intro f hf
    rcases List.mem_cons.mp hf with rfl | hf
    · exact Heap.appendable_color _ _ _ (brief_of_le _ (by decide))
    · rw [List.mem_singleton.mp hf]
      exact Heap.storable_oneVariable.appendable (brief_of_le _ (by decide))
  have hmode : Mode.binary ∈ Mode.named := by decide
  have hname : (Text.ofString "v").length ≤ 2 ^ 28 := by decide
  have hlevel : (-2 : Int) ≤ 9 ∧ (9 : Int) ≤ 9 := by decide
  obtain ⟨happended, hknown⟩ := stream_revised hmode hname hlevel hvs
  exact ⟨happended _ _ hlist (by decide) (by decide) hextras, hknown ⟨.one, .one⟩ 1⟩

end Reckoner
