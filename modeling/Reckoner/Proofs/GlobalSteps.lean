import Reckoner.Proofs.Makers
import Reckoner.Proofs.Places
import Reckoner.Proofs.RoundTrip
import Reckoner.Proofs.Stored
import Reckoner.Proofs.StoredMaps

/-!
# Loading and saving stored contexts

Loading gives a new context that holds the map whose stream is stored, and saving stores the
stream of the map that a context holds. A context without a stored form is refused before the
slot is touched.
-/

namespace Reckoner

open Run

variable {bound : Layout} {m : StoredMap} {place : Place} {g : Global} {w : World} {c : ContextId}

/-! ### Bytes of maps -/

/-- The bytes, if there are any, are the stream of a context that reads back as the map, and that
the layout `bound` can hold. -/
inductive StoredMap.IsIn (m : StoredMap) (bound : Layout) : Option Text → Prop where
  | nothing : m = [] → IsIn m bound none
  /-- The stream holds a context, written in one of the modes. -/
  | stream {mode : Mode} {vars : StoredMap} : mode ∈ Mode.named → bound.Narrower mode.layout →
    vars.Storable bound → m = vars.normal mode.layout →
    IsIn m bound (some (Stream.assemble mode Stream.defaultName
      ((Snapshot.context vars).bytes mode.layout)))

/-- The bytes, if there are any, are the stream of a context that reads back as the map, and that
its layout keeps. -/
inductive StoredMap.HeldIn (m : StoredMap) : Option Text → Prop where
  | nothing : m = [] → HeldIn m none
  /-- The stream holds a context that its mode keeps. -/
  | stream {mode : Mode} {vars : StoredMap} : mode ∈ Mode.named →
    (Snapshot.context vars).Kept mode.layout → m = vars.normal mode.layout →
    HeldIn m (some (Stream.assemble mode Stream.defaultName
      ((Snapshot.context vars).bytes mode.layout)))

theorem StoredMap.IsIn.held {bytes : Option Text} (hm : m.IsIn bound bytes) : m.HeldIn bytes := by
  cases hm with
  | nothing hnil => exact .nothing hnil
  | stream hmode hbound hvars heq => exact .stream hmode (hvars.wider hbound).kept heq

/-- A map that is stored can be stored again. -/
theorem StoredMap.IsIn.storable {bytes : Option Text} (hm : m.IsIn bound bytes) :
    m.Storable bound := by
  cases hm with
  | nothing hnil =>
    subst hnil
    exact StoredMap.storable_iff.mpr ⟨by decide, List.nodup_nil, fun b hb => by cases hb⟩
  | stream _ _ hvars heq =>
    subst heq
    exact hvars.normal _

theorem Snapshot.bytes_ne_nil (s : Snapshot) (layout : Layout) : s.bytes layout ≠ [] := by
  intro hnil
  obtain ⟨e, es, hpieces, htag⟩ := s.pieces_head
  rw [Snapshot.bytes, hpieces, List.flatMap_cons, List.append_eq_nil_iff] at hnil
  cases layout with
  | lines =>
    obtain ⟨b, rest, hbytes, -⟩ := Piece.bytes_lines_head htag
    rw [hbytes] at hnil
    cases hnil.1
  | packed =>
    obtain ⟨b, rest, hbytes, -⟩ := Piece.bytes_packed_head htag
    rw [hbytes] at hnil
    cases hnil.1

/-- A stream with a record is not empty. -/
theorem Stream.assemble_ne_nil (mode : Mode) (name : Text) {body : Text} (hbody : body ≠ []) :
    Stream.assemble mode name body ≠ [] := by
  intro hnil
  obtain ⟨hheader, hrest⟩ := List.append_eq_nil_iff.mp hnil
  by_cases hmode : mode = .compressed
  · subst hmode
    cases hheader
  · rw [if_neg hmode] at hrest
    exact hbody hrest

/-! ### Contexts that are read -/

namespace Heap

theorem parent_clear (h : Heap) (c d : ContextId) :
    ((h.clear c).context d).parent = (h.context d).parent :=
  map_context_update (f := (·.clear)) (·.parent) (fun _ => rfl) h c d

theorem parent_setVariable (h : Heap) (c d : ContextId) (name : Text) (v : Value) :
    ((h.setVariable c name v).context d).parent = (h.context d).parent :=
  map_context_update (f := (·.set name v)) (·.parent) (fun _ => rfl) h c d

end Heap

/-- Readers give no context that they make a parent. -/
def Invariant.orphans (lo : Nat) : Invariant where
  heap h := ∀ c, lo ≤ c → (h.context c).parent = none
  value _ _ := True
  error _ := True
  grow := fun _ _ => trivial
  malformed := fun _ => trivial
  leaf := fun _ _ _ => trivial
  array := fun _ _ _ => trivial
  list := fun _ => trivial
  object := fun _ _ _ => trivial
  newContext := fun hh c hc => by rw [Heap.context_newContext]; exact hh c hc
  context := fun _ => trivial
  clear := fun hh _ c hc => (Heap.parent_clear _ _ c).trans (hh c hc)
  setVariable := fun _ _ hh _ _ c hc => (Heap.parent_setVariable _ _ c _ _).trans (hh c hc)
  allocObject := fun _ hh => hh

/-- What a record adds to a heap has no parent. -/
theorem Reader.record_orphans (r : Reader) (h : Heap) :
    Reading.Kept (.orphans h.contexts.size) r.decoder h (r.record.exec ⟨r.decoder, h⟩)
      (Invariant.orphans h.contexts.size).datum :=
  (record_kept r (fun _ _ _ => trivial) fun c hc => by rw [Heap.context_of_size_le hc]).1

/-- The record of a map is read as a context that holds it. -/
theorem Reader.Before.loaded {r : Reader} {layout : Layout} {vars : StoredMap}
    (hr : r.Before layout (Snapshot.context vars).pieces)
    (hvars : (Snapshot.context vars).Kept layout) (h : Heap) :
    ∃ c d h', r.record.exec ⟨r.decoder, h⟩ = (.ok (some (.value (.context c))), ⟨d, h'⟩) ∧
      h.Loaded h' c (vars.normal layout) := by
  have hr' : r.Before layout ((Snapshot.context vars).pieces ++ []) := by
    rwa [List.append_nil]
  obtain ⟨v, d, h', hexec, -, hgrows, hshows⟩ := exec_record_some hr' hvars h
  rw [StoredMap.context_normal] at hshows
  have horphans : (Invariant.orphans h.contexts.size).heap h' := by
    have hkept := r.record_orphans h
    rw [hexec] at hkept
    exact hkept.heap
  cases hshows with
  | @context c _ hc hnames hvalues =>
    exact ⟨c, d, h', hexec, hgrows, horphans c hc.1, .context hc hnames hvalues⟩

namespace Global

/-- Where nothing is stored, loading gives an empty context. -/
theorem load_missing {e : Error} (hopen : g.slot.openRead w.storage = .error e)
    (hmissing : e.isMissing = true) :
    ∃ c w', g.load.exec w = (.ok c, w') ∧ w'.storage = w.storage ∧ w.heap.Loaded w'.heap c [] := by
  rw [load_exec, hopen]
  simp only [hmissing, if_true]
  exact ⟨_, _, rfl, rfl, Heap.loaded_newContext w.heap⟩

/-- **Loading bytes that hold a map gives a copy of it.** The mode is that of the stream, whatever
the handle's own mode is. -/
theorem load_bytes {bytes : Text} (hopen : g.slot.openRead w.storage = .ok (.ok bytes))
    (hcatalog : g.catalog = Catalog.values) (hm : m.HeldIn (some bytes)) :
    ∃ c w', g.load.exec w = (.ok c, w') ∧ w'.storage = w.storage ∧ w.heap.Loaded w'.heap c m := by
  rw [load_exec, hopen]
  cases hm with
  | @stream mode vars hmode hvars heq =>
    have hname : Stream.defaultName.length ≤ 2 ^ 28 := by decide
    obtain ⟨r, layout, hstart, hbefore, hlayout, -, -⟩ :=
      Reader.start_assemble hmode hname [Snapshot.context vars]
    obtain rfl := hlayout (by simp)
    subst heq
    have hreader : g.reader (.ok (Stream.assemble mode Stream.defaultName
        ((Snapshot.context vars).bytes mode.layout))) = .ok r := by
      have hbytes' : ([Snapshot.context vars].flatMap (Snapshot.bytes mode.layout))
          = (Snapshot.context vars).bytes mode.layout := by simp
      rw [hbytes'] at hstart
      rw [reader, hcatalog]
      exact hstart
    obtain ⟨c, d, h', hexec, hloaded⟩ :=
      Reader.Before.loaded (by simpa using hbefore) hvars w.heap
    dsimp only
    rw [hreader]
    dsimp only
    rw [Reader.next_exec, hexec]
    exact ⟨c, _, rfl, rfl, hloaded⟩

/-- **Loading gives a copy of the map that is held** and changes nothing there. -/
theorem load_held (hslot : g.slot.KeepsAt w.storage.databases.size place)
    (hcatalog : g.catalog = Catalog.values) (hm : m.HeldIn (w.storage.bytes? place)) :
    ∃ c w', g.load.exec w = (.ok c, w') ∧ w'.storage = w.storage ∧ w.heap.Loaded w'.heap c m := by
  cases hbytes : w.storage.bytes? place with
  | none =>
    rw [hbytes] at hm
    cases hm with
    | nothing hnil =>
      subst hnil
      obtain ⟨e, hopen, hmissing⟩ := hslot.openRead_none hbytes
      exact load_missing hopen hmissing
  | some bytes =>
    rw [hbytes] at hm
    exact load_bytes (hslot.openRead_some hbytes) hcatalog hm

/-- A map that is stored is loaded. -/
theorem load_stored (hslot : g.slot.KeepsAt w.storage.databases.size place)
    (hcatalog : g.catalog = Catalog.values) (hm : m.IsIn bound (w.storage.bytes? place)) :
    ∃ c w', g.load.exec w = (.ok c, w') ∧ w'.storage = w.storage ∧ w.heap.Loaded w'.heap c m :=
  load_held hslot hcatalog hm.held

/-! ### Saving -/

/-- A context is encoded as the stream of what is written of it, if that is without an error. -/
theorem encode_eq (hmode : g.mode ∈ Mode.named) (h : Heap) (c : ContextId) :
    g.encode h c = match h.writeValue g.mode.layout (some (.context c)) with
      | ⟨_, some e⟩ => .error e
      | ⟨bytes, none⟩ => .ok (Stream.assemble g.mode Stream.defaultName bytes) := by
  rw [encode, Writer.start, Writer.create_named hmode _ (by decide)]
  simp only [bind, Except.bind, Writer.putValue, Writer.put]
  rcases h.writeValue g.mode.layout (some (.context c)) with ⟨bytes, _ | e⟩
  · rfl
  · rfl

/-- A context that holds a map is encoded as the stream of the map. -/
theorem encode_map {h : Heap} {live : ContextId → Prop} (hmode : g.mode ∈ Mode.named)
    (hc : h.Shows live (.context c) (.context m)) (hm : m.Storable g.mode.layout) :
    g.encode h c = .ok (Stream.assemble g.mode Stream.defaultName
      ((Snapshot.context m).bytes g.mode.layout)) := by
  rw [encode_eq hmode, hc.written hm]

/-- **What has been encoded is there whole**: the bytes are the stream of the map that the context
holds, all of which the layout can write. -/
theorem encode_ok {h : Heap} {live : ContextId → Prop} {bytes : Text}
    (hc : h.Shows live (.context c) (.context m)) (hencode : g.encode h c = .ok bytes) :
    g.mode ∈ Mode.named ∧ bytes = Stream.assemble g.mode Stream.defaultName
        ((Snapshot.context m).bytes g.mode.layout) ∧
      ∀ v, h.Reaches (.context c) v → v.Writable g.mode.layout := by
  have hmode : g.mode ∈ Mode.named := by
    cases hmode : g.mode with
    | other code =>
      rw [encode, hmode] at hencode
      cases hencode
    | _ => decide
  rw [encode_eq hmode] at hencode
  have hdone : (h.writeValue g.mode.layout (some (.context c))).error = none := by
    rcases hwrite : h.writeValue g.mode.layout (some (.context c)) with ⟨bytes', _ | e⟩
    · rfl
    · rw [hwrite] at hencode
      cases hencode
  obtain ⟨hwrite, hwritable⟩ := hc.written_of_done hdone
  rw [hwrite] at hencode
  exact ⟨hmode, (Except.ok.inj hencode).symm, hwritable⟩

theorem encode_unstorable {h : Heap} (hmode : g.mode ∈ Mode.named)
    (hc : h.Unstorable (.context c)) : ∃ e, g.encode h c = .error e := by
  have hne : (h.writeValue g.mode.layout (some (.context c))).error ≠ none := hc.write_error
  rw [encode_eq hmode]
  rcases hwrite : h.writeValue g.mode.layout (some (.context c)) with ⟨bytes, _ | e⟩
  · exact absurd (congrArg Emission.error hwrite) hne
  · exact ⟨e, rfl⟩

/-- **Saving stores the map that the context holds.** -/
theorem save_map (hslot : g.slot.KeepsAt w.storage.databases.size place)
    (hmode : g.mode ∈ Mode.named) (hbound : bound.Narrower g.mode.layout)
    {live : ContextId → Prop} (hc : w.heap.Shows live (.context c) (.context m))
    (hm : m.Storable bound) :
    ∃ w', (g.save c).exec w = (.ok (), w') ∧ w'.heap = w.heap ∧
      StoredMap.IsIn (m.normal g.mode.layout) bound (w'.storage.bytes? place) := by
  rw [save_exec, encode_map hmode hc (Snapshot.Storable.wider hm hbound)]
  dsimp only
  rcases hslot.store (Stream.assemble g.mode Stream.defaultName
    ((Snapshot.context m).bytes g.mode.layout)) with ⟨s', hstore, hbytes, -⟩ | ⟨hnil, -⟩
  · rw [hstore]
    refine ⟨_, rfl, rfl, ?_⟩
    show StoredMap.IsIn _ bound (s'.bytes? place)
    rw [hbytes]
    exact .stream hmode hbound hm rfl
  · exact absurd hnil (Stream.assemble_ne_nil _ _ (Snapshot.bytes_ne_nil _ _))

/-- **What has been saved is there whole**: the bytes are the stream of the map that the context
holds, all of which the layout can write. -/
theorem save_saved (hslot : g.slot.KeepsAt w.storage.databases.size place)
    {live : ContextId → Prop} {w₁ : World}
    (hc : w.heap.Shows live (.context c) (.context m)) (hsave : (g.save c).exec w = (.ok (), w₁)) :
    w₁.storage.bytes? place = some (Stream.assemble g.mode Stream.defaultName
        ((Snapshot.context m).bytes g.mode.layout)) ∧
      ∀ v, w.heap.Reaches (.context c) v → v.Writable g.mode.layout := by
  rw [save_exec] at hsave
  cases hencode : g.encode w.heap c with
  | error e =>
    rw [hencode] at hsave
    cases hsave
  | ok bytes =>
    obtain ⟨-, rfl, hwritable⟩ := encode_ok hc hencode
    refine ⟨?_, hwritable⟩
    rw [hencode] at hsave
    rcases hslot.store (Stream.assemble g.mode Stream.defaultName
      ((Snapshot.context m).bytes g.mode.layout)) with ⟨s', hstore, hbytes, -⟩ | ⟨hnil, -⟩
    · simp only [hstore, settle] at hsave
      cases hsave
      exact hbytes
    · exact absurd hnil (Stream.assemble_ne_nil _ _ (Snapshot.bytes_ne_nil _ _))

/-- **What has no stored form is refused**, and nothing has changed. -/
theorem save_unstorable (hmode : g.mode ∈ Mode.named) (hc : w.heap.Unstorable (.context c)) :
    ∃ e, (g.save c).exec w = (.error (.during writingActivity e), w) := by
  obtain ⟨e, he⟩ := encode_unstorable hmode hc
  exact ⟨e, by rw [save_exec, he]⟩

/-- Saving changes no context. -/
theorem save_heap (c : ContextId) (w : World) : ((g.save c).exec w).2.heap = w.heap := by
  rw [save_exec]
  cases g.encode w.heap c with
  | error e => rfl
  | ok bytes =>
    dsimp only
    rcases g.slot.store bytes w.storage with ⟨(e | e) | _, storage⟩ <;> rfl

/-- A stored context is changed by changing the one that was loaded and saving it. -/
theorem setVariable_exec {w₁ : World} (hload : g.load.exec w = (.ok c, w₁)) (name : Text)
    (v : Value) : (g.setVariable name v).exec w
      = (g.save c).exec { w₁ with heap := w₁.heap.setVariable c name v } := by
  rw [setVariable, exec_bind_ok hload, exec_bind_ok (exec_onHeap _ _)]

theorem clear_exec {w₁ : World} (hload : g.load.exec w = (.ok c, w₁)) (names : List Text) :
    (g.clear names).exec w
      = (g.save c).exec { w₁ with heap := w₁.heap.clearNames c names } := by
  rw [clear, exec_bind_ok hload, exec_bind_ok (exec_onHeap _ _)]
  rfl

/-! ### What is left as it was -/

/-- Nothing but the bytes at the place may have changed, and these only if there is no error. -/
structure Touches (place : Place) (w : World) {α : Type} (out : Except Error α × World) : Prop where
  /-- A failure leaves everything as it was. -/
  failed : ∀ e, out.1 = .error e → out.2.storage = w.storage
  /-- What is stored elsewhere stays. -/
  only : w.storage.ChangesOnly out.2.storage place

variable {α β : Type}

theorem touches_same {out : Except Error α × World} (h : out.2.storage = w.storage) :
    Touches place w out :=
  ⟨fun _ _ => h, h ▸ .refl _ place⟩

theorem touches_bind {x : Run α} {f : α → Run β} (hx : (x.exec w).2.storage = w.storage)
    (hf : ∀ a w', w'.storage = w.storage → Touches place w' ((f a).exec w')) :
    Touches place w ((x >>= f).exec w) := by
  rw [exec_bind]
  rcases hexec : x.exec w with ⟨r, w'⟩
  rw [hexec] at hx
  cases r with
  | error e => exact touches_same hx
  | ok a =>
    obtain ⟨hfailed, honly⟩ := hf a w' hx
    exact ⟨fun e he => (hfailed e he).trans hx, hx ▸ honly⟩

theorem load_storage (g : Global) (w : World) : (g.load.exec w).2.storage = w.storage := by
  rw [load_exec]
  cases g.slot.openRead w.storage with
  | error e =>
    dsimp only
    split <;> rfl
  | ok content =>
    dsimp only
    cases g.reader content with
    | error e => rfl
    | ok r =>
      dsimp only
      rcases (r.next w.heap).1 with e | (_ | (v | color))
      · rfl
      · rfl
      · cases v <;> rfl
      · rfl

/-- **Saving touches one place**, and none if it fails. -/
theorem save_touches (hslot : g.slot.KeepsAt w.storage.databases.size place) (c : ContextId) :
    Touches place w ((g.save c).exec w) := by
  rw [save_exec]
  cases g.encode w.heap c with
  | error e => exact touches_same rfl
  | ok bytes =>
    dsimp only
    rcases hslot.store bytes with ⟨s', hstore, -, honly⟩ | ⟨-, e, hstore⟩
    · rw [hstore]
      exact ⟨fun _ he => (by cases he), honly⟩
    · rw [hstore]
      exact touches_same rfl

/-- Handing a result on touches nothing. -/
theorem touches_map {x : Run α} {f : α → β} (hx : Touches place w (x.exec w)) :
    Touches place w ((do return f (← x) : Run β).exec w) := by
  obtain ⟨hfailed, honly⟩ := hx
  rw [exec_bind]
  rcases hexec : x.exec w with ⟨r, w'⟩
  rw [hexec] at hfailed honly
  cases r with
  | error e => exact ⟨fun _ _ => hfailed e rfl, honly⟩
  | ok a => exact ⟨fun _ he => (by cases he), honly⟩

theorem setVariable_touches (hslot : g.slot.KeepsAt w.storage.databases.size place) (name : Text)
    (v : Value) : Touches place w ((g.setVariable name v).exec w) :=
  touches_bind (load_storage g w) fun c w' hw' => touches_bind rfl fun _ w'' hw'' =>
    save_touches (by rwa [hw'', hw']) c

theorem clear_touches (hslot : g.slot.KeepsAt w.storage.databases.size place)
    (names : List Text) : Touches place w ((g.clear names).exec w) :=
  touches_bind (load_storage g w) fun c w' hw' => touches_bind rfl fun _ w'' hw'' =>
    save_touches (by rwa [hw'', hw']) c

theorem getVariable_touches (g : Global) (name : Text) :
    Touches place w ((g.getVariable name).exec w) :=
  touches_bind (load_storage g w) fun c w' _ => by
    rw [exec_bind_ok (exec_heap _)]
    cases w'.heap.lookup c name with
    | none => exact touches_same rfl
    | some v => exact touches_same rfl

end Global

end Reckoner
