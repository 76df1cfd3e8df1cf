import Mathlib.Tactic
import Reckoner.Proofs.Snapshot

/-!
# The records of a snapshot

Every snapshot has a list of records, in the order in which they are written: one for a scalar,
and a tag, a block and the records of the parts for everything else. Writing a value that has a
snapshot is writing that list.
-/

namespace Reckoner

/-! ### Writes in sequence -/

namespace Emission

@[simp] theorem done_andThen (b : Unit → Emission) : done.andThen b = b () := by
  simp [andThen, done]

@[simp] theorem andThen_done (a : Emission) : (a.andThen fun _ => done) = a := by
  obtain ⟨bytes, error⟩ := a
  cases error <;> simp [andThen, done]

theorem andThen_assoc (a : Emission) (b c : Unit → Emission) :
    (a.andThen b).andThen c = a.andThen fun u => (b u).andThen c := by
  obtain ⟨bytes, error⟩ := a
  cases error with
  | some e => rfl
  | none =>
    simp only [andThen]
    obtain ⟨more, error⟩ := b ()
    cases error with
    | some e => rfl
    | none => simp

/-- A sequence finishes if both of its writes do. -/
theorem andThen_error {a : Emission} {b : Unit → Emission} :
    (a.andThen b).error = none ↔ a.error = none ∧ (b ()).error = none := by
  unfold andThen
  cases h : a.error with
  | some e => simp [h]
  | none => simp

theorem each_congr {α : Type} {write write' : α → Emission} {xs : List α}
    (h : ∀ x ∈ xs, write x = write' x) : each write xs = each write' xs := by
  induction xs with
  | nil => rfl
  | cons x xs ih =>
    rw [each, each, h x List.mem_cons_self, ih fun y hy => h y (List.mem_cons_of_mem x hy)]

theorem each_append {α : Type} (write : α → Emission) (xs ys : List α) :
    each write (xs ++ ys) = (each write xs).andThen fun _ => each write ys := by
  induction xs with
  | nil => simp [each]
  | cons x xs ih => rw [List.cons_append, each, each, ih, andThen_assoc]

theorem each_error {α : Type} {write : α → Emission} {xs : List α} :
    (each write xs).error = none ↔ ∀ x ∈ xs, (write x).error = none := by
  induction xs with
  | nil => simp [each, done]
  | cons x xs ih => rw [each, andThen_error, ih, List.forall_mem_cons]

/-- Writes that finish put out their bytes one after another. -/
theorem each_eq {α : Type} {write : α → Emission} {xs : List α}
    (h : ∀ x ∈ xs, (write x).error = none) :
    each write xs = ⟨xs.flatMap fun x => (write x).bytes, none⟩ := by
  induction xs with
  | nil => rfl
  | cons x xs ih =>
    rw [each, ih fun y hy => h y (List.mem_cons_of_mem x hy), andThen, h x List.mem_cons_self]
    simp

end Emission

theorem Record.block_congr {α : Type} {layout : Layout} {write write' : α → Emission}
    {fields : List (α × Text × Text)} (h : ∀ f ∈ fields, write f.1 = write' f.1) :
    Record.block layout write fields = Record.block layout write' fields := by
  unfold Record.block
  rw [Emission.each_congr fun f hf => ?_]
  rw [Record.field, Record.field, h f hf]

/-! ### Records -/

/-- A record: a scalar with its tag, or a tag alone. -/
inductive Piece where
  /-- A tag with a payload. -/
  | scalar (s : Scalar)
  /-- A tag that other records follow. -/
  | opening (tag : Text)
  deriving Repr

namespace Piece

/-- Writes a record. -/
def write (layout : Layout) : Piece → Emission
  | scalar s => Record.scalar layout s
  | opening tag => Record.opening layout tag

/-- Writes records one after another. -/
def writeAll (layout : Layout) (es : List Piece) : Emission := Emission.each (write layout) es

theorem writeAll_append (layout : Layout) (es fs : List Piece) :
    writeAll layout (es ++ fs) = (writeAll layout es).andThen fun _ => writeAll layout fs :=
  Emission.each_append _ es fs

theorem writeAll_cons (layout : Layout) (e : Piece) (es : List Piece) :
    writeAll layout (e :: es) = (e.write layout).andThen fun _ => writeAll layout es := rfl

theorem writeAll_singleton (layout : Layout) (e : Piece) :
    writeAll layout [e] = e.write layout := by
  rw [writeAll_cons]
  exact Emission.andThen_done _

/-- The bytes of a record. -/
def bytes (layout : Layout) (e : Piece) : Text := (e.write layout).bytes

/-- Records that can be written are written as their bytes. -/
theorem writeAll_eq {layout : Layout} {es : List Piece}
    (h : (writeAll layout es).error = none) :
    writeAll layout es = ⟨es.flatMap (bytes layout), none⟩ :=
  Emission.each_eq (Emission.each_error.mp h)

/-- The records of a text. -/
abbrev label (t : Text) : Piece := .scalar (.text t)

/-- The record of a count. -/
abbrev count (n : Nat) : Piece := .scalar (.int (Int64.ofNat n))

/-- The records of a field: what it holds, a name and a comment. -/
def field (f : List Piece × Text × Text) : List Piece := f.1 ++ [label f.2.1, label f.2.2]

/-- The records of a block of fields. -/
def block (fields : List (List Piece × Text × Text)) : List Piece :=
  count fields.length :: fields.flatMap field

/-- The records of a block of scalars. -/
def scalarBlock (fields : List (Scalar × Text × Text)) : List Piece :=
  block (fields.map fun f => ([.scalar f.1], f.2))

/-- The records of numbers. -/
def reals (xs : List Binary64) : List Piece := xs.map fun x => .scalar (.real x)

/-- A block is written as its records if the contents of its fields are. -/
theorem write_block {α : Type} {layout : Layout} {write : α → Emission}
    {fields : List (α × Text × Text)} {es : List (List Piece × Text × Text)}
    (h : List.Forall₂ (fun f e => write f.1 = writeAll layout e.1 ∧ f.2 = e.2) fields es) :
    Record.block layout write fields = writeAll layout (block es) := by
  have hfields : Emission.each (Record.field layout write) fields
      = writeAll layout (es.flatMap field) := by
    induction h with
    | nil => rfl
    | cons hfe _ ih =>
      obtain ⟨hwrite, hlabels⟩ := hfe
      rw [Emission.each, ih, List.flatMap_cons, writeAll_append, Record.field, hwrite, field,
        writeAll_append, hlabels, writeAll_cons, writeAll_singleton]
      rfl
  rw [Record.block, hfields, h.length_eq]
  rfl

theorem write_scalarBlock (layout : Layout) (fields : List (Scalar × Text × Text)) :
    Record.scalarBlock layout fields = writeAll layout (scalarBlock fields) := by
  refine write_block ?_
  rw [List.forall₂_map_right_iff, List.forall₂_same]
  exact fun f _ => ⟨(writeAll_singleton layout (.scalar f.1)).symm, rfl⟩

theorem write_reals (layout : Layout) (xs : List Binary64) :
    Value.writeReals layout xs = writeAll layout (reals xs) := by
  induction xs with
  | nil => rfl
  | cons x xs ih =>
    unfold Value.writeReals at ih ⊢
    rw [Emission.each, ih]
    rfl

end Piece

/-! ### The records of values -/

/-- The records of the length of a sequence. -/
def Piece.length (n : Nat) : List Piece := scalarBlock [(.int (Int64.ofNat n), "length", [])]

/-- The records of a value that holds no others. -/
def Leaf.pieces : Leaf → List Piece
  | int n => [.scalar (.int n)]
  | real x => [.scalar (.real x)]
  | bool b => [.scalar (.bool b)]
  | text s => [.scalar (.text s)]
  | dateTime t => [.scalar (.dateTime t)]
  | timeSpan d => [.scalar (.timeSpan d)]
  | point p =>
    .opening "point" :: Piece.scalarBlock [(.real p.x, "x", []), (.real p.y, "y", [])]
  | vector xs => .opening "vector" :: (Piece.length xs.length ++ Piece.reals xs)
  | pointVector ps =>
    .opening "pointvector" :: (Piece.length ps.length
      ++ Piece.reals (ps.flatMap fun p => [p.x, p.y]))
  | matrix m =>
    .opening "matrix" :: (Piece.scalarBlock
      [(.int (Int64.ofNat m.rows), "rows", []), (.int (Int64.ofNat m.cols), "cols", [])]
      ++ Piece.reals m.data)

namespace Snapshot

/-- The records in front of the items of an array. -/
def arrayHead (elem : Kind) (n : Nat) : List Piece :=
  Piece.scalarBlock
    [(.text elem.name, "elem", "element kind"), (.int (Int64.ofNat n), "length", [])]

mutual

/-- The records of a snapshot. -/
def pieces : Snapshot → List Piece
  | leaf a => a.pieces
  | array elem items => .opening "array" :: (arrayHead elem items.length ++ piecesAll items)
  | list items => .opening "list" :: (Piece.length items.length ++ piecesAll items)
  | context vars => .opening "context" :: Piece.block (piecesVars vars)

/-- The records of items one after another. -/
def piecesAll : List Snapshot → List Piece
  | [] => []
  | s :: rest => s.pieces ++ piecesAll rest

/-- The fields of variables. -/
def piecesVars : List (Text × Snapshot) → List (List Piece × Text × Text)
  | [] => []
  | (name, s) :: rest => (s.pieces, name, []) :: piecesVars rest

end

/-- The bytes of a snapshot. -/
def bytes (layout : Layout) (s : Snapshot) : Text := s.pieces.flatMap (Piece.bytes layout)

theorem piecesAll_eq (ss : List Snapshot) : piecesAll ss = ss.flatMap pieces := by
  induction ss with
  | nil => rfl
  | cons s ss ih => rw [piecesAll, ih, List.flatMap_cons]

theorem piecesVars_eq (vars : List (Text × Snapshot)) :
    piecesVars vars = vars.map fun b => (b.2.pieces, b.1, []) := by
  induction vars with
  | nil => rfl
  | cons b vars ih => rw [piecesVars, ih, List.map_cons]

end Snapshot

/-- A leaf is written as its records. -/
theorem Leaf.write_eq (a : Leaf) (layout : Layout) (out : Outlet) :
    a.value.write layout out = Piece.writeAll layout a.pieces := by
  cases a with
  | int n => rw [value, Value.write, pieces, Piece.writeAll_singleton, Piece.write]
  | real x => rw [value, Value.write, pieces, Piece.writeAll_singleton, Piece.write]
  | bool b => rw [value, Value.write, pieces, Piece.writeAll_singleton, Piece.write]
  | text s => rw [value, Value.write, pieces, Piece.writeAll_singleton, Piece.write]
  | dateTime t => rw [value, Value.write, pieces, Piece.writeAll_singleton, Piece.write]
  | timeSpan d => rw [value, Value.write, pieces, Piece.writeAll_singleton, Piece.write]
  | point p =>
    rw [value, Value.write, pieces, Piece.writeAll_cons, ← Piece.write_scalarBlock]
    rfl
  | vector xs =>
    rw [value, Value.write, pieces, Piece.writeAll_cons, Piece.writeAll_append, Piece.length,
      ← Piece.write_scalarBlock, ← Piece.write_reals]
    rfl
  | pointVector ps =>
    rw [value, Value.write, pieces, Piece.writeAll_cons, Piece.writeAll_append, Piece.length,
      ← Piece.write_scalarBlock, ← Piece.write_reals]
    rfl
  | matrix m =>
    rw [value, Value.write, pieces, Piece.writeAll_cons, Piece.writeAll_append,
      ← Piece.write_scalarBlock, ← Piece.write_reals]
    rfl

/-- Items are written one after another. -/
theorem Value.writeItems_eq (layout : Layout) (out : Outlet) (vs : List Value) :
    Value.writeItems layout out vs = Emission.each (Value.write layout out) vs := by
  induction vs with
  | nil => rfl
  | cons v vs ih => rw [Value.writeItems, Emission.each, ih]

/-- Items that are written as their records are written as the records of all. -/
theorem Snapshot.writeItems_eq {layout : Layout} {out : Outlet} {vs : List Value}
    {ss : List Snapshot}
    (h : List.Forall₂ (fun v s => v.write layout out = Piece.writeAll layout s.pieces) vs ss) :
    Value.writeItems layout out vs = Piece.writeAll layout (piecesAll ss) := by
  induction h with
  | nil => rfl
  | cons hv _ ih => rw [Value.writeItems, piecesAll, Piece.writeAll_append, hv, ih]

end Reckoner
