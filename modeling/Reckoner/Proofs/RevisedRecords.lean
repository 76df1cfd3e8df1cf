import Reckoner.Proofs.Storable
import Reckoner.Proofs.Transcripts

/-!
# Records of other writers

Another writer may have other fields in the blocks that describe composite values. Whatever these
hold, what it writes are records: a tag, the records of a block and those of the parts.
-/

namespace Reckoner

variable {layout : Layout}

/-! ### What is written are records -/

/-- If the write finishes, then it puts out records. -/
def Emission.Recorded (layout : Layout) (e : Emission) : Prop :=
  e.error = none → ∃ es, e = Piece.writeAll layout es

theorem Transcript.laidOut_recorded (a : Transcript) : (a.laidOut layout).Recorded layout := by
  intro hok
  obtain ⟨-, herror⟩ := Emission.andThen_error.mp hok
  obtain ⟨es, error⟩ := a
  obtain rfl : error = none := herror
  exact ⟨es, Transcript.laidOut_pieces es⟩

/-- **What is written are records.** -/
theorem Heap.writeDatum_recorded (h : Heap) (layout : Layout) (d : Option Datum) :
    (h.writeDatum layout d).Recorded layout := by
  rw [writeDatum_laidOut]
  exact (h.datumRecords d).laidOut_recorded

/-! ### Other writers -/

/-- The kinds of values that a block describes. -/
def Kind.described : List Kind := [point, vector, pointVector, matrix, array, list]

namespace Value

/-- The field of a number in a description. -/
def countField (n : Nat) (name : Text) : Field := ⟨some (.value (.int (Int64.ofNat n))), name, []⟩

/-- The fields of the block that describes a value. -/
def description : Value → List Field
  | point p => [⟨some (.value (.real p.x)), "x", []⟩, ⟨some (.value (.real p.y)), "y", []⟩]
  | vector xs => [countField xs.length "length"]
  | pointVector ps => [countField ps.length "length"]
  | matrix m => [countField m.rows "rows", countField m.cols "cols"]
  | array elem items =>
    [⟨some (.value (.text elem.name)), "elem", "element kind"⟩, countField items.length "length"]
  | list items => [countField items.length "length"]
  | _ => []

/-- Writes what stands behind that block. -/
def writeBody (layout : Layout) (out : Outlet) : Value → Emission
  | vector xs => writeReals layout xs
  | pointVector ps => writeReals layout (ps.flatMap fun p => [p.x, p.y])
  | matrix m => writeReals layout m.data
  | array _ items => writeItems layout out items
  | list items => writeItems layout out items
  | _ => .done

end Value

/-- Writes a value that is described by a block of the given fields. -/
def Heap.writeDescribed (h : Heap) (layout : Layout) (v : Value) (fields : List Field) : Emission :=
  (Record.opening layout v.kind.name).andThen fun _ =>
    (h.writeBlock layout fields).andThen fun _ => v.writeBody layout (h.outerOutlet layout)

namespace Heap

variable {h : Heap} {live : ContextId → Prop} {v : Value} {s : Snapshot} {d : Description}
  {fields : List Field}

/-- With the fields of its description a value is written as ever. -/
theorem writeDescribed_description (hv : v.kind ∈ Kind.described) :
    h.writeDescribed layout v v.description = h.writeValue layout (some v) := by
  cases v with
  | point p =>
    have hdone := Emission.andThen_done (h.writeBlock layout (Value.point p).description)
    exact congrArg (fun e => (Record.opening layout "point").andThen fun _ => e) hdone
  | vector xs => rfl
  | pointVector ps => rfl
  | matrix m => rfl
  | array elem items =>
    rw [writeValue, Value.write]
    rfl
  | list items =>
    rw [writeValue, Value.write]
    rfl
  | _ => exact absurd hv (by simp [Value.kind, Kind.described])

/-- A value that can be stored is written as the records of what it holds. -/
theorem Storable.write_eq (hv : h.Storable layout v) (hs : h.Shows live v s) :
    v.write layout (h.outerOutlet layout) = Piece.writeAll layout s.pieces := by
  obtain ⟨_, -, -, hwrite⟩ := hv.written
  have hok : (v.write layout (h.outerOutlet layout)).error = none := congrArg Emission.error hwrite
  obtain ⟨t, ht, heq⟩ :=
    write_finished (plain_of_writable fun w hw => writable_of_fits (hv.fits w hw)) hok
  obtain rfl := ht.unique hs
  exact heq

/-- Items are written as the records of what they hold. -/
theorem writeItems_shown {items : List Value} {ss : List Snapshot}
    (hitems : ∀ w ∈ items, h.Storable layout w) (hss : List.Forall₂ (h.Shows live) items ss) :
    Value.writeItems layout (h.outerOutlet layout) items
      = Piece.writeAll layout (Snapshot.piecesAll ss) := by
  refine Snapshot.writeItems_eq ?_
  rw [List.forall₂_iff_zip] at hss ⊢
  exact ⟨hss.1, fun {w t} hwt => (hitems w (List.of_mem_zip hwt).1).write_eq (hss.2 hwt)⟩

/-- A value with a description has its tag and its body. -/
theorem writeBody_eq (hv : h.Storable layout v) (hs : h.Shows live v s)
    (hd : s.description? = some d) :
    v.kind.name = d.tag ∧
      v.writeBody layout (h.outerOutlet layout) = Piece.writeAll layout d.body := by
  cases hs with
  | @leaf a v hva =>
    subst hva
    cases a with
    | point p =>
      cases hd
      exact ⟨rfl, rfl⟩
    | vector xs =>
      cases hd
      exact ⟨rfl, Piece.write_reals layout xs⟩
    | pointVector ps =>
      cases hd
      exact ⟨rfl, Piece.write_reals layout _⟩
    | matrix m =>
      cases hd
      exact ⟨rfl, Piece.write_reals layout m.data⟩
    | _ => cases hd
  | array hss =>
    cases hd
    exact ⟨rfl, writeItems_shown (fun w hw => hv.of_holds (.array hw)) hss⟩
  | list hss =>
    cases hd
    exact ⟨rfl, writeItems_shown (fun w hw => hv.of_holds (.list hw)) hss⟩
  | context _ _ _ => cases hd

/-- The field is written as the records, with the labels. -/
def FieldWritten (h : Heap) (layout : Layout) (f : Field) (e : List Piece × Text × Text) : Prop :=
  h.writeDatum layout f.value = Piece.writeAll layout e.1 ∧ (f.name, f.comment) = e.2

theorem fieldWritten_scalar (s : Scalar) (name comment : Text) :
    h.FieldWritten layout ⟨some s.datum, name, comment⟩ ([.scalar s], name, comment) := by
  refine ⟨?_, rfl⟩
  rw [Piece.writeAll_singleton]
  cases s <;> rfl

theorem fieldWritten_count (n : Nat) (name : Text) :
    h.FieldWritten layout (Value.countField n name) ([Piece.count n], name, []) :=
  fieldWritten_scalar (.int (Int64.ofNat n)) name []

/-- The description of a value is written as that of what it holds. -/
theorem description_written (hs : h.Shows live v s) (hd : s.description? = some d) :
    List.Forall₂ (h.FieldWritten layout) v.description
      (d.fields.map fun f => ([.scalar f.1], f.2)) := by
  cases hs with
  | @leaf a v hva =>
    subst hva
    cases a with
    | point p =>
      cases hd
      exact .cons (fieldWritten_scalar (.real p.x) "x" [])
        (.cons (fieldWritten_scalar (.real p.y) "y" []) .nil)
    | vector xs =>
      cases hd
      exact .cons (fieldWritten_count xs.length "length") .nil
    | pointVector ps =>
      cases hd
      exact .cons (fieldWritten_count ps.length "length") .nil
    | matrix m =>
      cases hd
      exact .cons (fieldWritten_count m.rows "rows") (.cons (fieldWritten_count m.cols "cols") .nil)
    | _ => cases hd
  | @array elem items ss hss =>
    cases hd
    refine .cons (fieldWritten_scalar (.text elem.name) "elem" "element kind") (.cons ?_ .nil)
    rw [← hss.length_eq]
    exact fieldWritten_count items.length "length"
  | @list items ss hss =>
    cases hd
    refine .cons ?_ .nil
    rw [← hss.length_eq]
    exact fieldWritten_count items.length "length"
  | context _ _ _ => cases hd

/-- Other fields are written as their records in front of the same body. -/
theorem writeDescribed_eq (hv : h.Storable layout v) (hs : h.Shows live v s)
    (hd : s.description? = some d) {es : List (List Piece × Text × Text)}
    (hfields : List.Forall₂ (h.FieldWritten layout) fields es) :
    h.writeDescribed layout v fields
      = Piece.writeAll layout (.opening d.tag :: (Piece.block es ++ d.body)) := by
  obtain ⟨htag, hbody⟩ := writeBody_eq hv hs hd
  have hblock : h.writeBlock layout fields = Piece.writeAll layout (Piece.block es) :=
    Piece.write_block (List.forall₂_map_left_iff.mpr hfields)
  rw [writeDescribed, htag, hblock, hbody, Piece.writeAll_cons, Piece.writeAll_append]
  rfl

/-- Values of these kinds have a description. -/
theorem description_of_kind (hs : h.Shows live v s) (hv : v.kind ∈ Kind.described) :
    ∃ d, s.description? = some d := by
  cases hs with
  | @leaf a v hva =>
    subst hva
    cases a with
    | point _ | vector _ | pointVector _ | matrix _ => exact ⟨_, rfl⟩
    | _ => simp [Leaf.value, Value.kind, Kind.described] at hv
  | array _ => exact ⟨_, rfl⟩
  | list _ => exact ⟨_, rfl⟩
  | context _ _ _ => simp [Value.kind, Kind.described] at hv

end Heap

/-! ### Records that are written in full -/

namespace Piece

/-- The records can be written. -/
def Written (layout : Layout) (es : List Piece) : Prop := ∀ e ∈ es, (e.write layout).error = none

theorem writeAll_error {es : List Piece} :
    (writeAll layout es).error = none ↔ Written layout es :=
  Emission.each_error

theorem written_append {es fs : List Piece} :
    Written layout (es ++ fs) ↔ Written layout es ∧ Written layout fs := by
  simp only [Written, List.forall_mem_append]

theorem written_cons {e : Piece} {es : List Piece} :
    Written layout (e :: es) ↔ (e.write layout).error = none ∧ Written layout es := by
  simp only [Written, List.forall_mem_cons]

theorem written_label (t : Text) : ((label t).write layout).error = none := by
  cases layout <;> rfl

theorem written_count (n : Nat) : ((count n).write layout).error = none := by
  cases layout <;> rfl

theorem written_field {f : List Piece × Text × Text} :
    Written layout (field f) ↔ Written layout f.1 := by
  simp only [field, written_append, written_cons, written_label, true_and, and_iff_left_iff_imp]
  exact fun _ _ he => by cases he

/-- A block can be written if its fields can. -/
theorem written_block {fields : List (List Piece × Text × Text)} :
    Written layout (block fields) ↔ ∀ f ∈ fields, Written layout f.1 := by
  rw [block, written_cons, and_iff_right (written_count _)]
  simp only [Written, List.mem_flatMap, forall_exists_index, and_imp]
  constructor
  · exact fun h f hf => written_field.mp fun e he => h e f hf he
  · exact fun h e f hf he => written_field.mpr (h f hf) e he

end Piece

end Reckoner
