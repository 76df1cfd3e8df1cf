import Mathlib.Tactic
import Reckoner.Proofs.Sound

/-!
# Makers of any bytes

Whatever the bytes are, what a tag makes is well-formed: a matrix has its elements, an array the
items of its kind, and a sequence as many items as it announces. A record that is read takes at
least one byte, or one line, of what is left, so that records nest no deeper than there is
something left, and a reader with so much fuel never runs out of it.
-/

namespace Reckoner

open Reading (Sound Kept Anything sound_pure sound_throw sound_malformed sound_result sound_heap
  sound_onHeap)

variable {inv : Invariant} {read : RecordReader} {n lo : Nat} {tag : Text}

/-! ### Numbers -/

theorem readReal_sound (hread : ReadsSoundly inv n read) (what : Text) :
    Sound inv n lo (readReal read what) Anything := by
  refine (hread.later (Nat.zero_le lo)).bind fun d m _ _ => ?_
  split
  · exact sound_pure fun _ _ => trivial
  · exact sound_heap fun h => sound_malformed _

/-- As many numbers as announced are read. -/
theorem readReals_sound (hread : ReadsSoundly inv n read) (what : Text) (count : Nat) :
    Sound inv n lo (readReals read what count) fun _ xs => xs.length = count := by
  induction count with
  | zero => exact sound_pure fun _ _ => rfl
  | succ count ih =>
    refine (readReal_sound hread what).seq fun x _ => ?_
    exact ih.seq fun xs hxs => sound_pure fun _ _ => congrArg Nat.succ hxs

theorem readPoints_sound (hread : ReadsSoundly inv n read) (count : Nat) :
    Sound inv n lo (readPoints read count) Anything := by
  induction count with
  | zero => exact sound_pure fun _ _ => trivial
  | succ count ih =>
    refine (readReal_sound hread _).seq fun x _ => ?_
    refine (readReal_sound hread _).seq fun y _ => ?_
    exact ih.seq fun ps _ => sound_pure fun _ _ => trivial

theorem readLength_sound (hread : ReadsSoundly inv n read) (what : Text) :
    Sound inv n lo (readLength read what) Anything := by
  refine (readBlock_sound hread).bind fun gs m _ _ => ?_
  refine sound_heap fun h => sound_field.seq fun count _ => ?_
  dsimp only
  split
  · exact (sound_malformed _).seq (P := fun _ => False) fun _ h => h.elim
  · exact sound_pure fun _ _ => trivial

/-- Dimensions that pass the check have no more elements than allowed. -/
theorem dimensions_ok {rows cols : Int64}
    (hok : ¬ (rows ≤ 0 || cols ≤ 0 || maxElements / cols.toInt.toNat < rows.toInt.toNat) = true) :
    0 < rows.toInt.toNat ∧ 0 < cols.toInt.toNat ∧
      rows.toInt.toNat * cols.toInt.toNat ≤ 2 ^ 24 := by
  have hpos : ∀ {m : Int64}, ¬ m ≤ 0 → 0 < m.toInt.toNat := by
    intro m hm
    rw [Int64.le_iff_toInt_le, not_le] at hm
    exact Int.lt_toNat.mpr hm
  simp only [Bool.or_eq_true, decide_eq_true_eq, not_or, not_lt] at hok
  obtain ⟨⟨hrows, hcols⟩, hmax⟩ := hok
  exact ⟨hpos hrows, hpos hcols, (Nat.le_div_iff_mul_le (hpos hcols)).mp hmax⟩

/-! ### Sequences -/

theorem requireDatumValue_sound (d : Option Datum) :
    Sound inv n lo (requireDatumValue d) fun _ v => d = some (.value v) := by
  unfold requireDatumValue
  split
  · exact sound_pure fun _ _ => rfl
  · exact sound_heap fun h => sound_malformed _

theorem readItems_sound (hread : ReadsSoundly inv n read) (total left : Nat) :
    Sound inv n lo (readItems read total left) fun m vs => ∀ v ∈ vs, inv.value m v := by
  induction left generalizing lo with
  | zero => exact sound_pure fun _ _ _ hv => by cases hv
  | succ left ih =>
    refine (hread.later (Nat.zero_le lo)).bind fun d m _ hd => ?_
    split
    · exact sound_malformed _
    · refine (requireDatumValue_sound d).seq fun v hv => ?_
      refine ih.bind fun rest k hk hrest => sound_pure fun j hj => ?_
      exact List.forall_mem_cons.mpr
        ⟨inv.grow (hd v hv) (hk.trans hj), fun w hw => inv.grow (hrest w hw) hj⟩

/-- An array is made of just the given items, all of its kind. The numbers of items only go into
errors. -/
theorem newArray_cases {elem : Kind} {vs : List (Option Value)} {v : Value}
    (h : Value.newArray elem vs = .ok v) :
    ∃ ws, v = .array elem ws ∧ vs = ws.map some ∧ ∀ w ∈ ws, w.kind = elem := by
  have hcheck : ∀ k {ws}, Value.checkItems elem k vs = .ok ws →
      vs = ws.map some ∧ ∀ w ∈ ws, w.kind = elem := by
    clear h
    induction vs with
    | nil =>
      intro k ws h
      cases h
      exact ⟨rfl, fun _ hw => by cases hw⟩
    | cons w vs ih =>
      intro k ws h
      unfold Value.checkItems at h
      split at h
      · next w =>
        split at h
        · next hw =>
          cases hrest : Value.checkItems elem (k + 1) vs with
          | error e =>
            rw [hrest] at h
            cases h
          | ok rest =>
            obtain ⟨rfl, hall⟩ := ih (k + 1) hrest
            rw [hrest] at h
            cases h
            exact ⟨rfl, List.forall_mem_cons.mpr ⟨hw, hall⟩⟩
        · cases h
      · cases h
  cases hc : Value.checkItems elem 0 vs with
  | error e =>
    rw [Value.newArray, hc] at h
    cases h
  | ok ws =>
    obtain ⟨hvs, hall⟩ := hcheck 0 hc
    rw [Value.newArray, hc] at h
    cases h
    exact ⟨ws, rfl, hvs, hall⟩

theorem ofName_ne_none {t : Text} {k : Kind} (h : Kind.ofName? t = some k) : k ≠ .none := by
  have hfound := List.find?_some h
  rintro rfl
  cases hfound

theorem readArray_sound (hread : ReadsSoundly inv n read) :
    Sound inv n lo (readParts read tag .array) inv.value := by
  rw [readParts]
  refine (readBlock_sound hread).bind fun gs m _ _ => ?_
  refine sound_heap fun h => sound_field.seq fun name _ => ?_
  split
  · exact sound_malformed _
  · next elem hname =>
    refine sound_field.seq fun count _ => ?_
    dsimp only
    split
    · exact (sound_malformed _).seq (P := fun _ => False) fun _ h => h.elim
    · refine (readItems_sound hread _ _).bind fun vs k _ hvs => ?_
      split
      · next v hv =>
        obtain ⟨ws, rfl, hws, hkind⟩ := newArray_cases hv
        obtain rfl := List.map_injective_iff.mpr (Option.some_injective _) hws
        exact sound_pure fun j hj => inv.array (ofName_ne_none hname) hkind
          fun w hw => inv.grow (hvs w hw) hj
      · exact sound_throw (inv.malformed ⟨_, _, _, rfl⟩)

/-! ### Contexts -/

/-- Fields set variables of a context that may be changed. -/
theorem setFields_sound {c : ContextId} (hc : inv.value lo (.context c)) {gs : List Field}
    (hgs : inv.fields lo gs) : Sound inv n lo (setFields c gs) Anything := by
  induction gs with
  | nil => exact sound_pure fun _ _ => trivial
  | cons f gs ih =>
    obtain ⟨hf, hrest⟩ := List.forall_mem_cons.mp hgs
    rw [setFields]
    refine (requireDatumValue_sound f.value).seq fun v hv => ?_
    refine (sound_onHeap (P := Anything) fun h hlo hh => ⟨?_, ?_, trivial⟩).seq fun _ _ => ih hrest
    · exact (Heap.size_setVariable h c _ _).ge
    · exact inv.setVariable _ hh (inv.grow hc hlo) (inv.grow (hf v hv) hlo)

theorem readContext_sound (hread : ReadsSoundly inv n read) {c : ContextId}
    (hc : inv.value lo (.context c)) : Sound inv n lo (readContext read c) Anything := by
  refine (readBlock_sound hread).bind fun gs m hm hgs => ?_
  have hc' := inv.grow hc hm
  refine (sound_onHeap (P := Anything) fun h hlo hh => ⟨?_, ?_, trivial⟩).seq fun _ _ =>
    setFields_sound hc' hgs
  · exact (Heap.size_clear h c).ge
  · exact inv.clear hh (inv.grow hc' hlo)

/-! ### Tags -/

/-- **Whatever a tag makes is as asked.** -/
theorem readParts_sound (hread : ReadsSoundly inv n read) (tag : Text) (maker : Maker) :
    Sound inv n lo (readParts read tag maker) inv.value := by
  cases maker with
  | point =>
    rw [readParts]
    refine (readBlock_sound hread).bind fun gs m _ _ => ?_
    refine sound_heap fun h => sound_field.seq fun x _ => ?_
    exact sound_field.seq fun y _ => sound_pure fun k _ => inv.leaf k (a := .point ⟨x, y⟩) trivial
  | vector =>
    rw [readParts]
    refine (readLength_sound hread _).seq fun count _ => ?_
    exact (readReals_sound hread _ count).seq fun xs _ =>
      sound_pure fun k _ => inv.leaf k (a := .vector xs) trivial
  | pointVector =>
    rw [readParts]
    refine (readLength_sound hread _).seq fun count _ => ?_
    exact (readPoints_sound hread count).seq fun ps _ =>
      sound_pure fun k _ => inv.leaf k (a := .pointVector ps) trivial
  | matrix =>
    rw [readParts]
    refine (readBlock_sound hread).bind fun gs m _ _ => ?_
    refine sound_heap fun h => sound_field.seq fun rows _ => sound_field.seq fun cols _ => ?_
    dsimp only
    split
    · exact (sound_malformed _).seq (P := fun _ => False) fun _ h => h.elim
    · next hok =>
      obtain ⟨hrows, hcols, hmax⟩ := dimensions_ok hok
      exact (readReals_sound hread _ _).seq fun xs hxs =>
        sound_pure fun k _ => inv.leaf k (a := .matrix ⟨_, _, xs⟩) ⟨hrows, hcols, hmax, hxs⟩
  | array => exact readArray_sound hread
  | list =>
    rw [readParts]
    refine (readLength_sound hread _).seq fun count _ => ?_
    refine (readItems_sound hread count count).bind fun vs k _ hvs => sound_pure fun j hj => ?_
    exact inv.list fun v hv => inv.grow (hvs v hv) hj
  | context =>
    rw [readParts]
    refine (sound_onHeap (P := fun m c => inv.value m (.context c)) fun h _ hh =>
      ⟨?_, inv.newContext hh, ?_⟩).bind fun c m _ hc => ?_
    · exact (Heap.grows_newContext h).size_le
    · rw [Heap.fst_newContext, Heap.size_newContext]
      exact inv.context hh
    · exact (readContext_sound hread hc).seq fun _ _ => sound_pure fun k hk => inv.grow hc hk
  | object hostType labels =>
    rw [readParts]
    refine (readBlock_sound hread).bind fun gs m _ _ => ?_
    refine (sound_onHeap (P := Anything) fun h _ hh =>
      ⟨le_rfl, inv.allocObject _ hh, trivial⟩).seq fun o _ => ?_
    exact sound_pure fun k _ => inv.object k tag o

/-! ### Records -/

theorem datum_scalar (s : Scalar) (m : Nat) : inv.datum m (some s.datum) := by
  intro v hv
  cases s with
  | color c => cases hv
  | int n => cases hv; exact inv.leaf m (a := .int n) trivial
  | real x => cases hv; exact inv.leaf m (a := .real x) trivial
  | text t => cases hv; exact inv.leaf m (a := .text t) trivial
  | bool b => cases hv; exact inv.leaf m (a := .bool b) trivial
  | dateTime t => cases hv; exact inv.leaf m (a := .dateTime t) trivial
  | timeSpan d => cases hv; exact inv.leaf m (a := .timeSpan d) trivial

variable {catalog : Catalog} {version : Int} {fuel : Nat}

/-- What comes behind a tag. -/
def readTagged (catalog : Catalog) (version : Int) (fuel : Nat) (tag : Text) : RecordReader :=
  match ScalarType.ofTag? tag with
  | some type => do
    let s ← Reading.step (Decoder.payload type)
    Reading.step Decoder.endRecord
    return some s.datum
  | none => do
    let maker ← Reading.result (catalog tag version)
    Reading.step Decoder.endRecord
    return some (.value (← readParts (readRecord catalog version fuel) tag maker))

theorem readTagged_sound (hcatalog : ∀ e, catalog tag version = .error e → inv.error e)
    (hread : ReadsSoundly inv n (readRecord catalog version fuel)) :
    ReadsSoundly inv n (readTagged catalog version fuel tag) := by
  have hend : Sound inv n 0 (Reading.step Decoder.endRecord) Anything :=
    Reading.sound_step fun d _ => Decoder.endRecord_tame le_rfl
  unfold readTagged
  split
  · next type _ =>
    refine (Reading.sound_step fun d _ => Decoder.payload_tame type le_rfl).seq
      (P := fun _ => True) fun s _ => ?_
    exact hend.seq (P := fun _ => True) fun _ _ => sound_pure fun m _ => datum_scalar s m
  · refine (sound_result hcatalog).seq fun maker _ => ?_
    refine hend.seq (P := fun _ => True) fun _ _ => ?_
    refine (readParts_sound hread tag maker).bind fun v m _ hv => sound_pure fun k hk => ?_
    rintro _ ⟨rfl⟩
    exact inv.grow hv hk

/-- **Records are read soundly**, and one that is there takes something. The induction is on the
fuel, which is more than what is left: behind a tag there is less. -/
theorem readRecord_kept (hcatalog : ∀ tag e, catalog tag version = .error e → inv.error e)
    {d : Decoder} {h : Heap} (hd : d.size < fuel) (hh : inv.heap h) :
    Kept inv d h ((readRecord catalog version fuel).exec ⟨d, h⟩) inv.datum ∧
      ∀ x, ((readRecord catalog version fuel).exec ⟨d, h⟩).1 = .ok (some x) →
        ((readRecord catalog version fuel).exec ⟨d, h⟩).2.decoder.size < d.size := by
  induction fuel generalizing d h with
  | zero => exact absurd hd (Nat.not_lt_zero _)
  | succ fuel ih =>
    have htame : d.tag.Tame Decoder.size d.size := Decoder.tag_tame le_rfl
    rw [readRecord, Reading.exec_bind, Reading.exec_step]
    cases htag : d.tag with
    | mk r d₁ =>
      rw [htag] at htame
      rcases r with e | (_ | tag)
      · exact ⟨⟨htame.size_le, le_rfl, hh, fun _ he => (by
          cases he
          exact inv.malformed (htame.failure e rfl)), fun _ ha => (by cases ha)⟩,
          fun _ hx => (by cases hx)⟩
      · exact ⟨⟨htame.size_le, le_rfl, hh, fun _ he => (by cases he), fun _ ha => (by
          cases ha
          exact fun _ hv => by cases hv)⟩, fun _ hx => (by cases hx)⟩
      · have hlt : d₁.size < d.size := by
          have := Decoder.tag_lt (d := d) (t := tag) (by rw [htag])
          rwa [htag] at this
        have hread : ReadsSoundly inv d₁.size (readRecord catalog version fuel) :=
          fun d' h' hd' _ hh' => (ih (by omega) hh').1
        have hk : Kept inv d₁ h ((readTagged catalog version fuel tag).exec ⟨d₁, h⟩) inv.datum :=
          readTagged_sound (hcatalog tag) hread d₁ h le_rfl (Nat.zero_le _) hh
        exact ⟨⟨hk.size_le.trans (Nat.le_of_lt hlt), hk.count_le, hk.heap, hk.failure, hk.result⟩,
          fun _ _ => lt_of_le_of_lt hk.size_le hlt⟩

/-- A reader of a stream has fuel enough for all records that are left. -/
theorem record_kept (r : Reader) (hcatalog : ∀ tag e, r.catalog tag r.version = .error e →
    inv.error e) {h : Heap} (hh : inv.heap h) :
    Kept inv r.decoder h (r.record.exec ⟨r.decoder, h⟩) inv.datum ∧
      ∀ x, (r.record.exec ⟨r.decoder, h⟩).1 = .ok (some x) →
        (r.record.exec ⟨r.decoder, h⟩).2.decoder.size < r.decoder.size :=
  readRecord_kept hcatalog (Nat.lt_succ_self _) hh

end Reckoner
