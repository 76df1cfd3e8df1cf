import Reckoner.Proofs.Pieces

/-!
# The records of all values

A snapshot has the records of a value that can be stored. Here are the records of every value, also
of one that holds user-defined objects, or that cannot be written to its end: then there are the
records in front of the place where writing stops, and the error there.

The records do not depend on the layout. Writing a value in a layout is laying them out in it.
-/

namespace Reckoner

/-! ### Transcripts -/

/-- Records in order, and the error that they stop at. -/
structure Transcript where
  pieces : List Piece
  error : Option Error := none

namespace Transcript

/-- Nothing is written, and the writer stops with an error. -/
def fail (e : Error) : Transcript := ⟨[], some e⟩

/-- Goes on with other records if the first ones do not stop. -/
def andThen (a b : Transcript) : Transcript :=
  match a.error with
  | some _ => a
  | none => ⟨a.pieces ++ b.pieces, b.error⟩

/-- The records of each item, in order. -/
def each {α : Type} (records : α → Transcript) : List α → Transcript
  | [] => ⟨[], none⟩
  | x :: rest => (records x).andThen (each records rest)

/-- The records of a block of fields. -/
def block {α : Type} (records : α → Transcript) (fields : List (α × Text × Text)) : Transcript :=
  andThen ⟨[Piece.count fields.length], none⟩ <| each
    (fun f => (records f.1).andThen ⟨[Piece.label f.2.1, Piece.label f.2.2], none⟩) fields

/-- The records as they are written in a layout. -/
def laidOut (layout : Layout) (a : Transcript) : Emission :=
  (Piece.writeAll layout a.pieces).andThen fun _ => ⟨[], a.error⟩

end Transcript

/-- The records of contexts and of user-defined objects, behind their tags. -/
structure Recorder where
  context : ContextId → Transcript
  object : ObjectId → Transcript

namespace Value

mutual

/-- The records of a value. -/
def records (rec : Recorder) : Value → Transcript
  | int n => ⟨(Leaf.int n).pieces, none⟩
  | real x => ⟨(Leaf.real x).pieces, none⟩
  | bool b => ⟨(Leaf.bool b).pieces, none⟩
  | text s => ⟨(Leaf.text s).pieces, none⟩
  | dateTime t => ⟨(Leaf.dateTime t).pieces, none⟩
  | timeSpan d => ⟨(Leaf.timeSpan d).pieces, none⟩
  | point p => ⟨(Leaf.point p).pieces, none⟩
  | vector xs => ⟨(Leaf.vector xs).pieces, none⟩
  | pointVector ps => ⟨(Leaf.pointVector ps).pieces, none⟩
  | matrix m => ⟨(Leaf.matrix m).pieces, none⟩
  | array elem items =>
    .andThen ⟨.opening "array" :: Snapshot.arrayHead elem items.length, none⟩
      (recordsAll rec items)
  | list items =>
    .andThen ⟨.opening "list" :: Piece.length items.length, none⟩ (recordsAll rec items)
  | context c => .andThen ⟨[.opening "context"], none⟩ (rec.context c)
  | handle _ => .fail (.notStorable Kind.object.name)
  | object tag o => .andThen ⟨[.opening tag], none⟩ (rec.object o)

/-- The records of items one after another. -/
def recordsAll (rec : Recorder) : List Value → Transcript
  | [] => ⟨[], none⟩
  | v :: rest => (records rec v).andThen (recordsAll rec rest)

end

end Value

/-- The records of what a field holds. -/
def Datum.records (rec : Recorder) : Option Datum → Transcript
  | none => .fail (.notStorable "<nil>")
  | some (.color c) => ⟨[.scalar (.color c)], none⟩
  | some (.value (.handle hostType)) => .fail (.notStorable hostType)
  | some (.value v) => v.records rec

namespace Heap

/-- The records of contexts and objects inside of the contexts `inside`, to a depth of `fuel`. -/
def recorder (h : Heap) : (fuel : Nat) → (inside : List ContextId) → Recorder
  | 0, _ => ⟨fun _ => .fail (.cycle []), fun _ => .fail (.cycle [])⟩
  | fuel + 1, inside =>
    { context := fun c =>
        if c ∈ inside then .fail (.cycle [])
        else
          let vars := (h.context c).vars
          match vars.findSome? fun (name, v) => v.refusal? (c :: inside) name with
          | some e => .fail e
          | none =>
            .block (Value.records (recorder h fuel (c :: inside)))
              (vars.map fun (name, v) => (v, name, []))
      object := fun o =>
        .block (Datum.records (recorder h fuel inside))
          ((h.object o).fields.map fun f => (f.value, f.name, f.comment)) }

/-- The records of a value at the outermost level. -/
def valueRecords (h : Heap) : Option Value → Transcript
  | none => .fail (.notStorable (Value.typeName? none))
  | some v => v.records (h.recorder h.depthBound [])

/-- The records of a field's content at the outermost level. -/
def datumRecords (h : Heap) (d : Option Datum) : Transcript :=
  Datum.records (h.recorder h.depthBound []) d

end Heap

/-! ### Writing is laying out -/

namespace Transcript

variable {α : Type} {layout : Layout} {write : α → Emission} {records : α → Transcript}

theorem laidOut_pieces (es : List Piece) :
    laidOut layout ⟨es, none⟩ = Piece.writeAll layout es := Emission.andThen_done _

theorem laidOut_andThen (a b : Transcript) :
    (a.andThen b).laidOut layout = (a.laidOut layout).andThen fun _ => b.laidOut layout := by
  obtain ⟨es, error⟩ := a
  unfold laidOut
  rw [Emission.andThen_assoc]
  cases error with
  | some e => rfl
  | none =>
    simp only [andThen, Piece.writeAll_append, Emission.andThen_assoc]
    rfl

theorem laidOut_each {xs : List α} (h : ∀ x ∈ xs, write x = (records x).laidOut layout) :
    Emission.each write xs = (each records xs).laidOut layout := by
  induction xs with
  | nil => rfl
  | cons x xs ih =>
    obtain ⟨hx, hxs⟩ := List.forall_mem_cons.mp h
    rw [Emission.each, each, laidOut_andThen, ← hx, ← ih hxs]

theorem laidOut_block {fields : List (α × Text × Text)}
    (h : ∀ f ∈ fields, write f.1 = (records f.1).laidOut layout) :
    Record.block layout write fields = (block records fields).laidOut layout := by
  rw [block, laidOut_andThen, laidOut_pieces, Piece.writeAll_singleton, ← laidOut_each]
  · rfl
  · intro f hf
    rw [laidOut_andThen, ← h f hf, laidOut_pieces, Piece.writeAll_cons, Piece.writeAll_singleton]
    rfl

end Transcript

/-- Contexts and objects are written as their records. -/
structure Outlet.LaysOut (layout : Layout) (out : Outlet) (rec : Recorder) : Prop where
  context : ∀ c, out.context c = (rec.context c).laidOut layout
  object : ∀ o, out.object o = (rec.object o).laidOut layout

variable {layout : Layout} {out : Outlet} {rec : Recorder}

theorem Leaf.records_value (a : Leaf) (rec : Recorder) :
    a.value.records rec = ⟨a.pieces, none⟩ := by
  cases a <;> rfl

theorem Value.writeItems_laidOut {items : List Value}
    (h : ∀ v ∈ items, v.write layout out = (v.records rec).laidOut layout) :
    writeItems layout out items = (recordsAll rec items).laidOut layout := by
  induction items with
  | nil => rfl
  | cons v items ih =>
    obtain ⟨hv, hitems⟩ := List.forall_mem_cons.mp h
    rw [writeItems, recordsAll, Transcript.laidOut_andThen, hv, ih hitems]

theorem Value.write_laidOut (h : out.LaysOut layout rec) (v : Value) :
    v.write layout out = (v.records rec).laidOut layout := by
  induction v using Value.byParts with
  | leaf a => rw [Leaf.write_eq, Leaf.records_value, Transcript.laidOut_pieces]
  | array elem items ih =>
    rw [write, records, Transcript.laidOut_andThen, Transcript.laidOut_pieces, Piece.writeAll_cons,
      Emission.andThen_assoc, ← writeItems_laidOut ih, Snapshot.arrayHead, ← Piece.write_scalarBlock]
    rfl
  | list items ih =>
    rw [write, records, Transcript.laidOut_andThen, Transcript.laidOut_pieces, Piece.writeAll_cons,
      Emission.andThen_assoc, ← writeItems_laidOut ih, Piece.length, ← Piece.write_scalarBlock]
    rfl
  | context c =>
    rw [write, records, Transcript.laidOut_andThen, Transcript.laidOut_pieces,
      Piece.writeAll_singleton, h.context]
    rfl
  | handle hostType => rfl
  | object tag o =>
    rw [write, records, Transcript.laidOut_andThen, Transcript.laidOut_pieces,
      Piece.writeAll_singleton, h.object]
    rfl

theorem Datum.write_laidOut (h : out.LaysOut layout rec) (d : Option Datum) :
    Datum.write layout out d = (Datum.records rec d).laidOut layout := by
  rcases d with _ | v | c
  · rfl
  · cases v with
    | handle hostType => rfl
    | _ => exact Value.write_laidOut h _
  · rw [records, Transcript.laidOut_pieces, Piece.writeAll_singleton]
    rfl

namespace Heap

/-- Inside of the same contexts, to the same depth. The induction is on the depth. -/
theorem outlet_laysOut (h : Heap) (layout : Layout) (fuel : Nat) (inside : List ContextId) :
    (h.outlet layout fuel inside).LaysOut layout (h.recorder fuel inside) := by
  induction fuel generalizing inside with
  | zero => exact ⟨fun _ => rfl, fun _ => rfl⟩
  | succ fuel ih =>
    refine ⟨fun c => ?_, fun o => ?_⟩
    · simp only [outlet, recorder]
      by_cases hc : c ∈ inside
      · rw [if_pos hc, if_pos hc]
        rfl
      · rw [if_neg hc, if_neg hc]
        cases (h.context c).vars.findSome? fun b => b.2.refusal? (c :: inside) b.1 with
        | some e => rfl
        | none =>
          exact Transcript.laidOut_block fun f _ => Value.write_laidOut (ih (c :: inside)) f.1
    · exact Transcript.laidOut_block fun f _ => Datum.write_laidOut (ih inside) f.1

/-- **A value is written as its records**, in both layouts. -/
theorem writeValue_laidOut (h : Heap) (layout : Layout) (v : Option Value) :
    h.writeValue layout v = (h.valueRecords v).laidOut layout := by
  cases v with
  | none => rfl
  | some v => exact Value.write_laidOut (h.outlet_laysOut layout h.depthBound []) v

theorem writeDatum_laidOut (h : Heap) (layout : Layout) (d : Option Datum) :
    h.writeDatum layout d = (h.datumRecords d).laidOut layout :=
  Datum.write_laidOut (h.outlet_laysOut layout h.depthBound []) d

end Heap

end Reckoner
