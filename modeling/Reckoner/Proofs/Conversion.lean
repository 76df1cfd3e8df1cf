import Reckoner.Proofs.Copies
import Reckoner.Proofs.Files
import Reckoner.Proofs.RoundTrip
import Reckoner.Proofs.Runs
import Reckoner.Proofs.StoredMaps
import Reckoner.Proofs.Total
import Reckoner.Program.Action

/-!
# Converting files

A stream need not have been written here: its tags may be spelled in another way, its blocks may
have more fields, its lines may be blank. All that matters for a copy is what is read: if it can be
stored then it is written, and read back. So a copy holds the values that come before the end of
the source or before a failure, and it is a finished stream in either case. What is read back for a
value is written as the value, which makes copies of copies the same.
-/

namespace Reckoner

variable {layout : Layout}

/-! ### Records of what is read back -/

theorem Binary64.text_normal (layout : Layout) (x : Binary64) :
    (x.normal layout).text = x.text := by
  unfold Binary64.normal
  split
  · next h =>
    have hnan : Binary64.nan.text = "NaN" := by decide +kernel
    rw [hnan]
    unfold Binary64.text
    rw [h.2]
  · rfl

theorem DateTime.text_normal (layout : Layout) (t : DateTime) :
    (t.normal layout).text = t.text := by
  unfold DateTime.normal
  split
  · next h =>
    have hcivil : DateTime.civil { t with zone := .utc } = t.civil := by
      unfold DateTime.civil
      simp only [h.2]
      rfl
    unfold DateTime.text
    rw [hcivil, h.2]
    rfl
  · rfl

/-- What is read back for a payload is written as the payload. -/
theorem Scalar.bytes_normal (layout : Layout) (s : Scalar) :
    (Piece.scalar (s.normal layout)).bytes layout = (Piece.scalar s).bytes layout := by
  cases layout with
  | packed =>
    have hsame : s.normal .packed = s := by
      cases s with
      | real x => simp [Scalar.normal, Binary64.normal]
      | dateTime t => simp [Scalar.normal, DateTime.normal]
      | _ => rfl
    rw [hsame]
  | lines =>
    rw [Piece.bytes_lines, Piece.bytes_lines]
    cases s with
    | real x =>
      simp only [Scalar.normal, Piece.line, Piece.tokens, Scalar.tag, Scalar.token,
        Binary64.text_normal]
    | dateTime t =>
      simp only [Scalar.normal, Piece.line, Piece.tokens, Scalar.tag, Scalar.token,
        DateTime.text_normal]
    | _ => rfl

namespace Piece

/-- What is read back for a record. -/
def normal (layout : Layout) : Piece → Piece
  | scalar s => scalar (s.normal layout)
  | opening tag => opening tag

theorem bytes_normal (layout : Layout) (e : Piece) :
    (e.normal layout).bytes layout = e.bytes layout := by
  cases e with
  | scalar s => exact s.bytes_normal layout
  | opening tag => rfl

theorem block_normal (layout : Layout) (fields : List (List Piece × Text × Text)) :
    block (fields.map fun f => (f.1.map (normal layout), f.2)) =
      (block fields).map (normal layout) := by
  have hfield : ∀ f : List Piece × Text × Text,
      field (f.1.map (normal layout), f.2) = (field f).map (normal layout) := fun f => by
    rw [field, field, List.map_append]
    rfl
  rw [block, block, List.map_cons, List.length_map, List.flatMap_map, List.map_flatMap]
  simp only [hfield]
  rfl

theorem reals_normal (layout : Layout) (xs : List Binary64) :
    reals (xs.map (Binary64.normal layout)) = (reals xs).map (normal layout) := by
  rw [reals, reals, List.map_map, List.map_map]
  rfl

end Piece

theorem Leaf.pieces_normal (layout : Layout) (a : Leaf) :
    (a.normal layout).pieces = a.pieces.map (Piece.normal layout) := by
  cases a with
  | vector xs =>
    rw [normal, pieces, pieces, List.map_cons, List.map_append, List.length_map,
      Piece.reals_normal]
    rfl
  | pointVector ps =>
    have hcoordinates : (ps.map fun p => (⟨p.x.normal layout, p.y.normal layout⟩ : Point)).flatMap
        (fun p => [p.x, p.y]) = (ps.flatMap fun p => [p.x, p.y]).map (Binary64.normal layout) := by
      rw [List.flatMap_map, List.map_flatMap]
      rfl
    rw [normal, pieces, pieces, List.map_cons, List.map_append, List.length_map, hcoordinates,
      Piece.reals_normal]
    rfl
  | matrix m =>
    rw [normal, pieces, pieces, List.map_cons, List.map_append, Piece.reals_normal]
    rfl
  | _ => rfl

theorem Snapshot.piecesAll_normal {items : List Snapshot}
    (hitems : ∀ s ∈ items, (s.normal layout).pieces = s.pieces.map (Piece.normal layout)) :
    piecesAll (normalAll layout items) = (piecesAll items).map (Piece.normal layout) := by
  rw [piecesAll_eq, piecesAll_eq, normalAll_eq, List.flatMap_map, List.map_flatMap]
  exact List.flatMap_congr hitems

/-- The records of what is read back are what is read back for the records. -/
theorem Snapshot.pieces_normal (layout : Layout) (s : Snapshot) :
    (s.normal layout).pieces = s.pieces.map (Piece.normal layout) := by
  induction s with
  | leaf a => exact a.pieces_normal layout
  | array elem items ih =>
    rw [normal, pieces, pieces, piecesAll_normal ih, normalAll_eq, List.length_map, List.map_cons,
      List.map_append]
    rfl
  | list items ih =>
    rw [normal, pieces, pieces, piecesAll_normal ih, normalAll_eq, List.length_map, List.map_cons,
      List.map_append]
    rfl
  | context vars ih =>
    have hvars : piecesVars (normalVars layout vars)
        = (piecesVars vars).map fun f => (f.1.map (Piece.normal layout), f.2) := by
      rw [piecesVars_eq, piecesVars_eq, normalVars_eq, List.map_map, List.map_map]
      refine List.map_congr_left fun b hb => ?_
      simp only [Function.comp, ih b hb]
    rw [normal, pieces, pieces, hvars, Piece.block_normal, List.map_cons]
    rfl

/-- **What is read back is written as what was written.** -/
theorem Snapshot.bytes_normal (layout : Layout) (s : Snapshot) :
    (s.normal layout).bytes layout = s.bytes layout := by
  rw [bytes, bytes, pieces_normal, List.flatMap_map]
  simp only [Piece.bytes_normal]

/-! ### Reading for a copy -/

/-- What can be stored later could be stored when its contexts were there. -/
theorem Heap.Storable.of_grows {h h' : Heap} {v : Value} (hv : h'.Storable layout v)
    (hg : h.Grows h') (hlt : ∀ c, h.Reaches v (.context c) → c < h.contexts.size) :
    h.Storable layout v := by
  have hsub : h.Holds ≤ h'.Holds := fun _ _ hstep => hstep.grow hg
  have hreach : ∀ w, h.Reaches v w → h'.Reaches v w :=
    fun w hw => Relation.ReflTransGen.mono hsub _ _ hw
  refine ⟨fun w hw => ?_, fun c hc hcycle =>
    hv.acyclic c (hreach _ hc) (Relation.TransGen.mono hsub _ _ hcycle)⟩
  have hfits := hv.fits w (hreach w hw)
  cases w with
  | context c =>
    simp only [Value.Fits] at hfits ⊢
    rwa [hg.same c (hlt c hw)] at hfits
  | _ => exact hfits

namespace Reader

/-- Reading gives values that hold the snapshots, each of which can be stored where it is read. -/
inductive Gives (layout : Layout) : Reader → Heap → List Snapshot → Reader → Heap → Prop
  | nil {r : Reader} {h : Heap} : Gives layout r h [] r h
  /-- A value is read, and then the others. -/
  | cons {r r₁ r₂ : Reader} {h h₁ h₂ : Heap} {live : ContextId → Prop} {v : Value} {s : Snapshot}
      {ss : List Snapshot} :
    r.nextValue h = (.ok (some v), r₁, h₁) → h₁.Shows live v s → s.Storable layout →
    Gives layout r₁ h₁ ss r₂ h₂ → Gives layout r h (s :: ss) r₂ h₂

/-- No value comes next: the stream ends, or reading fails. -/
def Stops (r : Reader) (h : Heap) (failure : Option Error) : Prop :=
  (r.nextValue h).1 = match failure with
    | none => .ok none
    | some e => .error e

variable {r r' r₁ : Reader} {h h' h₁ : Heap} {v : Value} {vs : List Value} {ss : List Snapshot}

theorem Gives.reads (hg : r.Gives layout h ss r' h') :
    ∃ vs, r.Reads h vs r' h' ∧ vs.length = ss.length := by
  induction hg with
  | nil => exact ⟨[], .nil, rfl⟩
  | cons hnext _ _ _ ih =>
    obtain ⟨vs, hreads, hlen⟩ := ih
    exact ⟨_ :: vs, .cons hnext hreads, congrArg Nat.succ hlen⟩

theorem Gives.storable (hg : r.Gives layout h ss r' h') : ∀ s ∈ ss, s.Storable layout := by
  induction hg with
  | nil => exact fun _ hs => by cases hs
  | cons _ _ hs _ ih => exact List.forall_mem_cons.mpr ⟨hs, ih⟩

/-- What is read refers to contexts that are there. -/
theorem lt_of_reaches (hr : r.catalog = Catalog.values)
    (hnext : r.nextValue h = (.ok (some v), r₁, h₁)) {c : ContextId}
    (hc : h₁.Reaches v (.context c)) : c < h₁.contexts.size := by
  have hn : Next h r h (.ok (some v), r₁, h₁) :=
    hnext ▸ nextValue_next hr (Invariant.reading_start h)
  exact ((hn.heap.2.reaches (hn.value v rfl) hc).self.2 c rfl).2

theorem catalog_of_start {t : Text} (hstart : start Catalog.values t = .ok r) :
    r.catalog = Catalog.values := by
  rcases start_cases t with ⟨e, he, -⟩ | ⟨r₁, hr₁, hcatalog, -⟩
  · rw [hstart] at he
    cases he
  · rw [hstart] at hr₁
    cases hr₁
    exact hcatalog

/-- Values that can be stored when all of them have been read can be stored where they are read. -/
theorem Reads.gives (hreads : r.Reads h vs r' h') (hr : r.catalog = Catalog.values)
    (hstorable : ∀ v ∈ vs, h'.Storable layout v) :
    ∃ ss, r.Gives layout h ss r' h' ∧ List.Forall₂ (h'.Shows fun _ => True) vs ss := by
  induction hreads with
  | nil => exact ⟨[], .nil, .nil⟩
  | @cons r r₁ r₂ h h₁ h₂ v vs hnext hrest ih =>
    have hr₁ : r₁.catalog = Catalog.values := by
      have hcatalog := (nextValue_next hr (Invariant.reading_start h)).catalog
      rw [hnext] at hcatalog
      exact hcatalog.trans hr
    obtain ⟨ss, hg, hss⟩ := ih hr₁ fun u hu => hstorable u (List.mem_cons_of_mem v hu)
    have hgrows : h₁.Grows h₂ := (hrest.kept hr₁ (Invariant.reading_start h₁)).heap.1
    have hlt : ∀ c, h₁.Reaches v (.context c) → c < h₁.contexts.size :=
      fun c hc => lt_of_reaches hr hnext hc
    obtain ⟨s, hs, hsstorable, -⟩ := ((hstorable v List.mem_cons_self).of_grows hgrows hlt).written
    refine ⟨s :: ss, .cons hnext hs hsstorable hg, .cons ?_ hss⟩
    exact hs.of_reaches.frame fun c hc => ⟨trivial, by rw [hgrows.same c (hlt c hc.2)]⟩

/-- A finished stream gives what was written, which can be stored again. -/
theorem gives_back (hss : ∀ s ∈ ss, s.Storable layout)
    (hr : r.Before layout (ss.flatMap Snapshot.pieces)) (h : Heap) :
    ∃ r' h', r.Gives layout h (ss.map (Snapshot.normal layout)) r' h' ∧ r'.Stops h' none := by
  induction ss generalizing r h with
  | nil =>
    obtain ⟨d, hexec, -⟩ := exec_record_none hr h
    refine ⟨r, h, .nil, ?_⟩
    rw [Stops, nextValue_eq (o := none) hexec]
  | cons s ss ih =>
    rw [List.flatMap_cons] at hr
    have hs := hss s List.mem_cons_self
    obtain ⟨v, d, h₁, hexec, hd, -, hv⟩ := exec_record_some hr hs.kept h
    obtain ⟨r', h', hg, hend⟩ := @ih { r with decoder := d }
      (fun t ht => hss t (List.mem_cons_of_mem s ht)) ⟨hr.catalog, hr.version, hd⟩ h₁
    exact ⟨r', h', .cons (nextValue_eq (o := some v) hexec) hv (hs.normal layout) hg, hend⟩

end Reader

namespace Copy

open Reader (Gives Stops)

variable {r r' : Reader} {h h' : Heap} {ss : List Snapshot} {w : Writer} {failure : Option Error}

/-- What is given is written. The induction is on what the reader gives, each value of which is
written before the next one is read. -/
theorem run_gives (hg : r.Gives layout h ss r' h') (hw : w.mode.layout = layout)
    (fuel count : Nat) : run (ss.length + fuel) r h w count
      = run fuel r' h' { w with body := w.body ++ ss.flatMap (Snapshot.bytes layout) }
        (count + ss.length) := by
  induction hg generalizing w count with
  | nil => simp
  | @cons r r₁ r₂ h h₁ h₂ live v s ss hnext hs hstorable _ ih =>
    have hput : w.putValue h₁ (some v) = ({ w with body := w.body ++ s.bytes layout }, .ok ()) := by
      rw [Writer.putValue, Writer.put, hw, hs.written hstorable]
    have hfuel : (s :: ss).length + fuel = ss.length + fuel + 1 := by
      rw [List.length_cons]
      omega
    rw [hfuel, run, hnext]
    simp only [hput]
    rw [@ih { w with body := w.body ++ s.bytes layout } hw (count + 1), List.flatMap_cons,
      List.length_cons]
    simp only [List.append_assoc]
    congr 1
    omega

theorem run_stops (hend : r.Stops h failure) (fuel : Nat) (w : Writer) (count : Nat) :
    run (fuel + 1) r h w count = ⟨count, failure, w⟩ := by
  unfold Stops at hend
  rw [run]
  rcases hnext : r.nextValue h with ⟨answer, r₁, h₁⟩
  rw [hnext] at hend
  subst hend
  cases failure <;> rfl

/-- **All that is given is copied.** -/
theorem all_gives (hr : r.catalog = Catalog.values) (hg : r.Gives layout {} ss r' h')
    (hend : r'.Stops h' failure) (hw : w.mode.layout = layout) :
    all r w = ⟨ss.length, failure,
      { w with body := w.body ++ ss.flatMap (Snapshot.bytes layout) }⟩ := by
  obtain ⟨vs, hreads, hlen⟩ := hg.reads
  have hsize := (hreads.kept hr (Invariant.reading_start {})).size_le
  obtain ⟨fuel, hfuel⟩ : ∃ fuel, r.decoder.size + 1 = ss.length + (fuel + 1) :=
    ⟨r.decoder.size - ss.length, by omega⟩
  rw [all, hfuel, run_gives hg hw, run_stops hend, Nat.zero_add]

end Copy

/-! ### Finished streams -/

/-- **What has been copied is read back**, and given for another copy. A raw stream of no values is
taken for a text, from which no value is read. -/
theorem Writer.finish_reads {mode : Mode} (hmode : mode ∈ Mode.named) {name : Text}
    (hname : name.length ≤ 2 ^ 28) {ss : List Snapshot} (hss : ∀ s ∈ ss, s.Storable mode.layout) :
    ∃ r, Reader.start Catalog.values
        (finish ⟨mode, name, ss.flatMap (Snapshot.bytes mode.layout)⟩) = .ok r ∧
      (mode ≠ .raw ∨ ss ≠ [] → r.mode = mode) ∧
      (∀ h limit, ss.length < limit → r.Yields h limit (ss.map (Snapshot.normal mode.layout))) ∧
      ∃ r' h', r.Gives mode.layout {} (ss.map (Snapshot.normal mode.layout)) r' h' ∧
        r'.Stops h' none := by
  obtain ⟨r, layout, hstart, hbefore, hlayout, hdetect, -⟩ := Reader.start_assemble hmode hname ss
  refine ⟨r, hstart, hdetect, ?_⟩
  by_cases hne : ss = []
  · subst hne
    have hnone : ∀ s ∈ ([] : List Snapshot), s.Storable layout := fun _ hs => by cases hs
    obtain ⟨r', h', hg, hend⟩ := Reader.gives_back hnone hbefore {}
    cases hg
    exact ⟨fun h limit hlimit => Reader.nextAll_back hnone hbefore hlimit, r, {}, .nil, hend⟩
  · obtain rfl := hlayout hne
    exact ⟨fun h limit hlimit => Reader.nextAll_back hss hbefore hlimit,
      Reader.gives_back hss hbefore {}⟩

/-! ### Files -/

/-- The file at a path is a stream of values that hold the snapshots. It is in the mode, which a
raw stream only tells if there are any values in it. -/
def Disk.ReadsAs (d : Disk) (path : Text) (mode : Mode) (ss : List Snapshot) : Prop :=
  ∃ t r, d.openFile path = .ok (.ok t) ∧ Reader.start Catalog.values t = .ok r ∧
    (mode ≠ .raw ∨ ss ≠ [] → r.mode = mode) ∧
    ∀ h limit, ss.length < limit → r.Yields h limit ss

namespace Program

variable {w : World} {mode : Mode} {source target t : Text} {r : Reader} {loc : Location}

theorem changeDisk_exec {f : Disk → Except Error Disk} {d : Disk}
    (hf : f w.storage.disk = .ok d) :
    ∃ w', (changeDisk f).exec w = (.ok (), w') ∧ w'.storage.disk = d := by
  refine ⟨{ w with storage := { w.storage with disk := d } }, ?_, rfl⟩
  rw [changeDisk, Run.exec_bind_ok (Run.exec_get w), Run.exec_bind_ok (by rw [Run.exec_result, hf])]
  rfl

theorem openStream_exec (hsource : w.storage.disk.openFile source = .ok (.ok t)) :
    (openStream source).exec w = (Reader.start Catalog.values t, w) := by
  rw [openStream, Run.exec_bind_ok (Run.exec_get w),
    Run.exec_bind_ok (by rw [Run.exec_result, hsource])]
  rfl

/-- A copy replaces the target by the finished stream. -/
theorem copyFile_exec (hmode : mode ∈ Mode.named)
    (hsource : w.storage.disk.openFile source = .ok (.ok t))
    (hstart : Reader.start Catalog.values t = .ok r)
    (htarget : w.storage.disk.fileLocation target = .ok loc) {copy : Copy}
    (hcopy : Copy.all r { mode, name := Stream.defaultName } = copy) :
    ∃ w', (copyFile mode source target).exec w = (.ok copy, w') ∧
      w'.storage.disk = w.storage.disk.put loc (.file copy.finish) := by
  have hwriter : (Run.result (Writer.start mode)).exec = fun w =>
      (.ok { mode, name := Stream.defaultName }, w) := by
    rw [Writer.start, Writer.create_named hmode _ (by decide)]
    rfl
  obtain ⟨w₁, hcreate, hw₁⟩ := @changeDisk_exec w (·.writeFile target []) _
    (Disk.writeFile_eq htarget [])
  have htarget₁ : w₁.storage.disk.fileLocation target = .ok loc := by
    rw [hw₁]
    exact Disk.fileLocation_put htarget []
  obtain ⟨w₂, hwrite, hw₂⟩ := @changeDisk_exec w₁ (·.writeFile target copy.finish) _
    (Disk.writeFile_eq htarget₁ copy.finish)
  refine ⟨w₂, ?_, by rw [hw₂, hw₁, Disk.put_put]⟩
  rw [copyFile, Run.exec_bind_ok (by rw [openStream_exec hsource, hstart]),
    Run.exec_bind_ok hcreate, Run.exec_bind_ok (congrFun hwriter w₁)]
  dsimp only
  rw [hcopy, Run.exec_bind_ok hwrite]
  rfl

/-- How a command ends that a failure may have stopped. -/
def outcome : Option Error → Except Error Unit
  | none => .ok ()
  | some e => .error e

/-- The command ends as the copy does. -/
theorem convert_exec {modeName : Text} (hname : Mode.ofName modeName = .ok mode) {copy : Copy}
    {w' : World} (hcopy : (copyFile mode source target).exec w = (.ok copy, w')) :
    (convert modeName source target).exec w = (outcome copy.failure, w') := by
  rw [convert, Run.exec_bind_ok (by rw [Run.exec_result, hname]), Run.exec_bind_ok hcopy]
  cases copy.failure <;> rfl

/-- What copying a file does: it tells how many values were copied and why it ended before the
end, it leaves the source as it was, and the values are read back from the target. -/
structure Copies (mode : Mode) (source target : Text) (w : World) (ss : List Snapshot)
    (failure : Option Error) (w' : World) : Prop where
  /-- It ends, with the number of the values and the error it stopped at, if any. -/
  done : ∃ writer, (copyFile mode source target).exec w = (.ok ⟨ss.length, failure, writer⟩, w')
  /-- The source file is as it was. -/
  source : w'.storage.disk.openFile source = w.storage.disk.openFile source
  /-- The target reads back as the values, in its mode. -/
  target : w'.storage.disk.ReadsAs target mode (ss.map (Snapshot.normal mode.layout))

/-- What is given is copied, to a file that only depends on its bytes. -/
theorem copies_of_gives (hmode : mode ∈ Mode.named)
    (hsource : w.storage.disk.openFile source = .ok (.ok t))
    (hstart : Reader.start Catalog.values t = .ok r) {ss : List Snapshot} {r' : Reader} {h' : Heap}
    {failure : Option Error} (hg : r.Gives mode.layout {} ss r' h') (hstop : r'.Stops h' failure)
    (htarget : w.storage.disk.fileLocation target = .ok loc)
    (hdiffer : w.storage.disk.resolve source ≠ .ok loc) :
    ∃ w', Copies mode source target w ss failure w' ∧
      w'.storage.disk.openFile target = .ok (.ok
        (Writer.finish ⟨mode, Stream.defaultName, ss.flatMap (Snapshot.bytes mode.layout)⟩)) := by
  have hcopy := Copy.all_gives (w := { mode, name := Stream.defaultName })
    (Reader.catalog_of_start hstart) hg hstop rfl
  obtain ⟨w', hexec, hdisk⟩ := copyFile_exec hmode hsource hstart htarget hcopy
  have hloc := (Disk.fileLocation_iff.mp htarget).2.2
  have hwritten := Disk.openFile_put htarget
    (Writer.finish ⟨mode, Stream.defaultName, ss.flatMap (Snapshot.bytes mode.layout)⟩)
  obtain ⟨r₂, hstart₂, hdetect, hyields, -⟩ :=
    Writer.finish_reads hmode (by decide : Stream.defaultName.length ≤ 2 ^ 28) hg.storable
  refine ⟨w', ⟨⟨_, hexec⟩, ?_, _, r₂, hdisk ▸ hwritten, hstart₂, ?_, ?_⟩, hdisk ▸ hwritten⟩
  · rw [hdisk, Disk.openFile_put_of_ne hloc hsource hdiffer, hsource]
  · exact fun h => hdetect (h.imp_right fun hne hss => hne (by rw [hss]; rfl))
  · simpa using hyields

/-- **Converting a file copies every value.** Whatever stream the source is, if values are read
from it that can be stored and then it ends or fails, so many values are copied, with the failure,
and the target is read back as these values in its mode. Converting the target again gives the same
bytes. -/
theorem copyFile_copies (hmode : mode ∈ Mode.named)
    (hsource : w.storage.disk.openFile source = .ok (.ok t))
    (hstart : Reader.start Catalog.values t = .ok r)
    {vs : List Value} {r' : Reader} {h' : Heap} {failure : Option Error}
    (hreads : r.Reads {} vs r' h') (hstop : r'.Stops h' failure)
    (hstorable : ∀ v ∈ vs, h'.Storable mode.layout v)
    (htarget : w.storage.disk.fileLocation target = .ok loc)
    (hdiffer : w.storage.disk.resolve source ≠ .ok loc) :
    ∃ ss w', List.Forall₂ (h'.Shows fun _ => True) vs ss ∧
      Copies mode source target w ss failure w' ∧
      (∀ modeName, Mode.ofName modeName = .ok mode →
        (convert modeName source target).exec w = (outcome failure, w')) ∧
      ∀ again loc', w'.storage.disk.fileLocation again = .ok loc' →
        w'.storage.disk.resolve target ≠ .ok loc' →
        ∃ w'', Copies mode target again w' (ss.map (Snapshot.normal mode.layout)) none w'' ∧
          w''.storage.disk.openFile again = w'.storage.disk.openFile target := by
  obtain ⟨ss, hg, hss⟩ := hreads.gives (Reader.catalog_of_start hstart) hstorable
  obtain ⟨w', hcopies, hfile⟩ := copies_of_gives hmode hsource hstart hg hstop htarget hdiffer
  refine ⟨ss, w', hss, hcopies, fun modeName hname => ?_, fun again loc' hagain hdiffer' => ?_⟩
  · obtain ⟨writer, hexec⟩ := hcopies.done
    exact convert_exec hname hexec
  · obtain ⟨r₂, hstart₂, -, -, r₃, h₃, hg₂, hstop₂⟩ :=
      Writer.finish_reads hmode (by decide : Stream.defaultName.length ≤ 2 ^ 28) hg.storable
    obtain ⟨w'', hcopies₂, hfile₂⟩ :=
      copies_of_gives hmode hfile hstart₂ hg₂ hstop₂ hagain hdiffer'
    refine ⟨w'', hcopies₂, ?_⟩
    rw [hfile, hfile₂, List.flatMap_map]
    simp only [Snapshot.bytes_normal]

end Program

/-- The bytes of a record with a tag that nothing has. -/
def Text.unknownRecord : Text := 4 :: Text.ofString "nope"

/-- The bytes of an integer and a record that is not read. -/
def Text.intAndUnknown : Text := 3 :: Text.ofString "int" ++ 10 :: Text.unknownRecord

/-- The bytes of a real in its other spelling, an integer and a record that is not read. -/
def Text.realAndUnknown : Text :=
  4 :: Text.ofString "real" ++ [0, 0, 0, 0, 0, 0, 0, 64] ++ Text.intAndUnknown

/-- The reader of a raw stream in front of the bytes. -/
def Reader.ofBytes (t : Text) : Reader := ⟨.raw, 1, [], Catalog.values, .packed { rest := t }⟩

/-- A world with one file, which ends in a record that is not read. -/
def World.oneFile : World :=
  { storage := { disk := ⟨[([Text.ofString "a"], .file Text.realAndUnknown)]⟩ } }

/-- The two values in front of the record that is not read are copied, the command fails with what
the record is refused with, and copying the copy gives the same bytes. -/
theorem oneFile_copies : ∃ w' w'' : World,
    Program.Copies .binary "a" "b" World.oneFile
      [.leaf (.real ⟨0x4000000000000000⟩), .leaf (.int 5)] (some (.unknownTag "nope")) w' ∧
    (Program.convert "binary" "a" "b").exec World.oneFile
      = (.error (.unknownTag "nope"), w') ∧
    w''.storage.disk.openFile "c" = w'.storage.disk.openFile "b" := by
  have hreal : (Reader.ofBytes Text.realAndUnknown).nextValue {}
      = (.ok (some (.real ⟨0x4000000000000000⟩)), .ofBytes Text.intAndUnknown, {}) := by rfl
  have hint : (Reader.ofBytes Text.intAndUnknown).nextValue {}
      = (.ok (some (.int 5)), .ofBytes Text.unknownRecord, {}) := by rfl
  have hstorable : ∀ v ∈ [Value.real ⟨0x4000000000000000⟩, .int 5],
      Heap.Storable {} .packed v := by
    intro v hv
    rcases List.mem_cons.mp hv with rfl | hv
    · exact .of_parts trivial fun u hu => by cases hu
    · rw [List.mem_singleton.mp hv]
      exact .of_parts trivial fun u hu => by cases hu
  obtain ⟨ss, w', hss, hcopies, hconvert, hagain⟩ :=
    @Program.copyFile_copies World.oneFile .binary "a" "b" Text.realAndUnknown
      (.ofBytes Text.realAndUnknown) [Text.ofString "b"] (by decide) (by rfl) (by rfl) _
      (.ofBytes Text.unknownRecord) {} (some (.unknownTag "nope"))
      (.cons hreal (.cons hint .nil)) (by rfl) hstorable (by decide +kernel) (by decide +kernel)
  have hexec := hconvert "binary" (by rfl)
  have hw' : w' = ((Program.convert "binary" "a" "b").exec World.oneFile).2 := by rw [hexec]
  obtain ⟨w'', -, hfile⟩ :=
    hagain "c" [Text.ofString "c"] (hw' ▸ by decide +kernel) (hw' ▸ by decide +kernel)
  have hleaf : ∀ {a : Leaf} {s : Snapshot}, Heap.Shows {} (fun _ => True) a.value s → s = .leaf a :=
    fun hs => hs.unique (.leaf rfl : Heap.Shows {} (fun _ => True) _ _)
  cases hss with
  | cons hfirst hrest =>
    cases hrest with
    | cons hsecond hnone =>
      cases hnone
      obtain rfl := @hleaf (.real ⟨0x4000000000000000⟩) _ hfirst
      obtain rfl := @hleaf (.int 5) _ hsecond
      exact ⟨w', w'', hcopies, hexec, hfile⟩

end Reckoner
