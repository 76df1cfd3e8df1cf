import Reckoner.Stream.Block
import Reckoner.Stream.Decoder
import Reckoner.Stream.Deflate
import Reckoner.Stream.Registry
import Reckoner.Stream.Writer
import Reckoner.Value.Sequence

/-!
# Reading values

How records are put together to values. The parts of a composite value are records again, which
any number of further records can be nested in; every nested record takes at least one more byte
of the stream, so the number of bytes that are left bounds the depth. Counts and lengths that a
stream announces are never trusted: reading stops where the stream does.
-/

namespace Reckoner

/-- What reading changes: the stream, and the contexts and objects that are made. -/
structure Cursor where
  /-- The stream that is left. -/
  decoder : Decoder
  /-- The contexts and objects, those that have been read among them. -/
  heap : Heap

/-- A reader that gives a result or fails, and keeps its place in either case. -/
abbrev Reading (α : Type) := ExceptT Error (StateM Cursor) α

namespace Reading

/-- A step of the decoder. -/
def step {α : Type} (f : Decoder → Step Decoder α) : Reading α :=
  ExceptT.mk fun cur =>
    let (r, decoder) := f cur.decoder
    (r, { cur with decoder })

/-- A result that needs no reading. -/
def result {α : Type} (r : Except Error α) : Reading α := ExceptT.mk (pure r)

/-- The contexts and objects made so far. -/
def heap : Reading Heap := return (← get).heap

/-- Makes or changes contexts or objects. -/
def onHeap {α : Type} (f : Heap → α × Heap) : Reading α := do
  let cur ← get
  let (a, heap) := f cur.heap
  set { cur with heap }
  return a

end Reading

open Reading (step result heap onHeap)

/-- A reader of what one record holds; nothing at the end of the stream. -/
abbrev RecordReader := Reading (Option Datum)

/-- What a scalar record holds. -/
def Scalar.datum : Scalar → Datum
  | int n => .value (.int n)
  | real x => .value (.real x)
  | text s => .value (.text s)
  | bool b => .value (.bool b)
  | dateTime t => .value (.dateTime t)
  | timeSpan d => .value (.timeSpan d)
  | color c => .color c

/-! ### Blocks -/

/-- Reads a record that should hold a string; at the end of the stream it is empty. -/
def readLabel (read : RecordReader) (what : Text) : Reading Text := do
  match ← read with
  | none => return []
  | some (.value (.text s)) => return s
  | d => throw (malformed (what ++ " is " ++ Datum.hostType (← heap) d))

/-- Reads the field with number `k`; nothing if the stream ends before it. -/
def readField (read : RecordReader) (k : Nat) : Reading (Option Field) := do
  match ← read with
  | none => return none
  | some d =>
    let name ← readLabel read ("name of field " ++ Text.ofNat k)
    let comment ← readLabel read ("comment of field " ++ Text.ofNat k)
    return some ⟨some d, name, comment⟩

/-- Reads up to `n` fields from number `k` on. The fields before an error are kept. -/
def readFields (read : RecordReader) : (n k : Nat) → StateM Cursor (List Field × Option Error)
  | 0, _ => return ([], none)
  | n + 1, k => do
    match ← (readField read k).run with
    | .error e => return ([], some e)
    | .ok none => return ([], none)
    | .ok (some f) =>
      let (fields, error) ← readFields read n (k + 1)
      return (f :: fields, error)

/-- Reads a block, keeping the fields before an error. A stream that ends early gives the fields
that are there. -/
def readBlockPart (read : RecordReader) : StateM Cursor (List Field × Option Error) := do
  match ← read.run with
  | .error e => return ([], some e)
  | .ok none => return ([], none)
  | .ok (some d) =>
    let refused : Error := malformed ("param count is " ++ Datum.shown (← get).heap (some d))
    match d with
    | .value (.int n) =>
      if n < 0 then return ([], some refused) else readFields read n.toInt.toNat 0
    | _ => return ([], some refused)

/-- Reads a block. -/
def readBlock (read : RecordReader) : Reading (List Field) := do
  match ← (readBlockPart read : StateM Cursor _) with
  | (fields, none) => return fields
  | (_, some e) => throw e

/-! ### Composite values -/

/-- The value that a record holds. -/
def requireDatumValue (d : Option Datum) : Reading Value := do
  match d with
  | some (.value v) => return v
  | d => throw (malformed ("record of type " ++ Datum.hostType (← heap) d ++ " is not a value"))

/-- Reads a record that holds a real. -/
def readReal (read : RecordReader) (what : Text) : Reading Binary64 := do
  match ← read with
  | some (.value (.real x)) => return x
  | d => throw (malformed (what ++ " is " ++ Datum.hostType (← heap) d ++ ", want float64"))

/-- Reads `n` reals. -/
def readReals (read : RecordReader) (what : Text) : (n : Nat) → Reading (List Binary64)
  | 0 => return []
  | n + 1 => return (← readReal read what) :: (← readReals read what n)

/-- Reads `n` points. -/
def readPoints (read : RecordReader) : (n : Nat) → Reading (List Point)
  | 0 => return []
  | n + 1 => do
    let x ← readReal read "point x"
    let y ← readReal read "point y"
    return ⟨x, y⟩ :: (← readPoints read n)

/-- Reads the block in front of a sequence, which holds its length. -/
def readLength (read : RecordReader) (what : Text) : Reading Nat := do
  let fields ← readBlock read
  let n ← result (Field.readInt (← heap) fields 0)
  if n < 0 then throw (malformed (what ++ " length " ++ Text.ofInt n.toInt))
  return n.toInt.toNat

/-- Reads `left` more items of a sequence of `total`. -/
def readItems (read : RecordReader) (total : Nat) : (left : Nat) → Reading (List Value)
  | 0 => return []
  | left + 1 => do
    match ← read with
    | none =>
      throw (malformed ("sequence ends after " ++ Text.ofNat (total - (left + 1)) ++ " of "
        ++ Text.ofNat total ++ " items"))
    | d =>
      let v ← requireDatumValue d
      return v :: (← readItems read total left)

/-- Sets variables of a context to what fields hold, up to the first that holds no value. -/
def setFields (c : ContextId) : List Field → Reading Unit
  | [] => return ()
  | f :: rest => do
    let v ← requireDatumValue f.value
    onHeap fun h => ((), h.setVariable c f.name v)
    setFields c rest

/-- Replaces the variables of a context by those of a block. A block that cannot be read leaves
them as they are. -/
def readContext (read : RecordReader) (c : ContextId) : Reading Unit := do
  let fields ← readBlock read
  onHeap fun h => ((), h.clear c)
  setFields c fields

/-- The most elements of a matrix. -/
def maxElements : Nat := Nat.pow 2 24

/-- Reads the parts of what a tag makes. -/
def readParts (read : RecordReader) (tag : Text) : Maker → Reading Value
  | .point => do
    let fields ← readBlock read
    let h ← heap
    return .point ⟨← result (Field.readReal h fields 0), ← result (Field.readReal h fields 1)⟩
  | .vector => do
    let n ← readLength read "vector"
    return .vector (← readReals read "vector element" n)
  | .pointVector => do
    let n ← readLength read "pointvector"
    return .pointVector (← readPoints read n)
  | .matrix => do
    let fields ← readBlock read
    let h ← heap
    let rows ← result (Field.readInt h fields 0)
    let cols ← result (Field.readInt h fields 1)
    if rows ≤ 0 || cols ≤ 0 || maxElements / cols.toInt.toNat < rows.toInt.toNat then
      throw (malformed ("matrix dimensions " ++ Text.ofInt rows.toInt ++ "x"
        ++ Text.ofInt cols.toInt))
    let rows := rows.toInt.toNat
    let cols := cols.toInt.toNat
    return .matrix ⟨rows, cols, ← readReals read "matrix element" (rows * cols)⟩
  | .array => do
    let fields ← readBlock read
    let h ← heap
    let name ← result (Field.readText h fields 0)
    match Kind.ofName? name with
    | none => throw (malformed ("unknown array element kind " ++ name))
    | some elem =>
      let n ← result (Field.readInt h fields 1)
      if n < 0 then throw (malformed ("sequence length " ++ Text.ofInt n.toInt))
      let items ← readItems read n.toInt.toNat n.toInt.toNat
      match Value.newArray elem (items.map some) with
      | .ok v => return v
      | .error e => throw (.malformed "array items" 0 (some e))
  | .list => do
    let n ← readLength read "list"
    return .list (← readItems read n n)
  | .context => do
    let c ← onHeap fun h => h.newContext []
    readContext read c
    return .context c
  | .object hostType labels => do
    let fields ← readBlock read
    let made : List Field := labels.mapIdx fun i (name, comment) =>
      ⟨fields[i]?.bind (·.value), name, comment⟩
    return .object tag (← onHeap fun h => h.allocObject ⟨hostType, made⟩)

/-- Reads a record, with records nested to a depth of less than `fuel`. -/
def readRecord (catalog : Catalog) (version : Int) : (fuel : Nat) → RecordReader
  | 0 => throw .unexpectedEnd
  | fuel + 1 => do
    match ← step Decoder.tag with
    | none => return none
    | some tag =>
      match ScalarType.ofTag? tag with
      | some type =>
        let s ← step (Decoder.payload type)
        step Decoder.endRecord
        return some s.datum
      | none =>
        let maker ← result (catalog tag version)
        step Decoder.endRecord
        return some (.value (← readParts (readRecord catalog version fuel) tag maker))

/-! ### Streams being read -/

/-- A stream being read. -/
structure Reader where
  /-- The mode that was found out from the first bytes. -/
  mode : Mode
  /-- The version of the format, which decides about the tags that are known. -/
  version : Int
  /-- The version name in the header, if there is a header. -/
  name : Text
  /-- What each tag makes. -/
  catalog : Catalog
  /-- The records that are left. -/
  decoder : Decoder

namespace Reader

/-- How many bytes decide between text and raw streams. -/
def sniffLength : Nat := 512

/-- The mode of a stream by its first bytes. -/
def detect (t : Text) : Mode :=
  let head := t.take sniffLength
  match [Mode.binary, .compressed].find? fun m =>
    match m.magic? with
    | some magic => magic.isPrefixOf head
    | none => false with
  | some m => m
  | none => if head.all printable then .text else .raw

/-- Reads a header: the version, the version name and the body. -/
def header (t : Text) : Except Error (Int × Text × Text) :=
  (Step.bind (Packed.take "magic" 4 ⟨t, none⟩) fun _ p =>
    (p.take "version" 4).bind fun v p =>
      (p.varint "version name").bind fun n p =>
        if maxToken < n then (.error (malformed "version name out of range"), p)
        else
          (p.take "version name" n).bind fun name p =>
            (.ok (DateTime.ofTwosComplement 32 (Packed.ofLittleEndian v), name, p.rest), p)).1

/-- Starts to read a stream. -/
def start (catalog : Catalog) (t : Text) : Except Error Reader :=
  match detect t with
  | .text => .ok ⟨.text, Stream.version, [], catalog, .lines (Lines.ofText t)⟩
  | .binary => do
    let (version, name, body) ← header t
    return ⟨.binary, version, name, catalog, .packed ⟨body, none⟩⟩
  | .compressed => do
    let (version, name, body) ← header t
    let (bytes, ending) := Deflate.inflate body
    return ⟨.compressed, version, name, catalog, .packed ⟨bytes, ending⟩⟩
  | mode => .ok ⟨mode, Stream.version, [], catalog, .packed ⟨t, none⟩⟩

/-- The reader of the next record. -/
def record (r : Reader) : RecordReader := readRecord r.catalog r.version (r.decoder.size + 1)

/-- Runs a reader of records on the rest of the stream. -/
def run {α : Type} (r : Reader) (h : Heap) (read : RecordReader → StateM Cursor α) :
    α × Reader × Heap :=
  let (a, cur) := (read r.record).run ⟨r.decoder, h⟩
  (a, { r with decoder := cur.decoder }, cur.heap)

/-- Reads the next record; nothing at the end of the stream. -/
def next (r : Reader) (h : Heap) : Except Error (Option Datum) × Reader × Heap :=
  r.run h fun read => read.run

/-- Reads the next record as a value; nothing at the end of the stream. -/
def nextValue (r : Reader) (h : Heap) : Except Error (Option Value) × Reader × Heap :=
  r.run h fun read => ExceptT.run do
    match ← read with
    | none => return none
    | d => return some (← requireDatumValue d)

/-- Reads up to `limit` records until the end of the stream or an error, which are the last
results; after either, reading goes on if `resume` is set. -/
def nextAll {α : Type} (next : Reader → Heap → Except Error (Option α) × Reader × Heap)
    (resume : Bool) : (limit : Nat) → Reader → Heap → List (Except Error (Option α)) × Heap
  | 0, _, h => ([], h)
  | limit + 1, r, h =>
    match next r h with
    | (.ok (some a), r, h) =>
      let (rest, h) := nextAll next resume limit r h
      (.ok (some a) :: rest, h)
    | (last, r, h) =>
      if resume then
        let (rest, h) := nextAll next resume limit r h
        (last :: rest, h)
      else ([last], h)

/-- Reads a block, keeping the fields before an error. -/
def nextBlock (r : Reader) (h : Heap) : (List Field × Option Error) × Reader × Heap :=
  r.run h readBlockPart

/-- Replaces the variables of a context by those of the next block. -/
def nextContext (r : Reader) (h : Heap) (c : ContextId) : Except Error Unit × Reader × Heap :=
  r.run h fun read => (readContext read c).run

end Reader

end Reckoner
