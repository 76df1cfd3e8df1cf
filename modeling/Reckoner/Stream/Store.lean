import Reckoner.Heap
import Reckoner.Stream.Record

/-!
# Writing values

How every kind of value is written as records. A context is written as the block of its
variables, so a context that contains itself has no stored form: the walk keeps the contexts
that it is inside of, and meeting one of them again is an error. A context that is held twice is
written twice.
-/

namespace Reckoner

/-- How contexts and user-defined objects are written behind their tags. -/
structure Outlet where
  context : ContextId → Emission
  object : ObjectId → Emission

namespace Value

/-- The description of a sequence by its length. -/
def lengthBlock (layout : Layout) (n : Nat) : Emission :=
  Record.scalarBlock layout [(.int (Int64.ofNat n), "length", [])]

/-- Records of numbers. -/
def writeReals (layout : Layout) (xs : List Binary64) : Emission :=
  Emission.each (fun x => Record.scalar layout (.real x)) xs

mutual

/-- Writes a value. -/
def write (layout : Layout) (out : Outlet) : Value → Emission
  | int n => Record.scalar layout (.int n)
  | real x => Record.scalar layout (.real x)
  | bool b => Record.scalar layout (.bool b)
  | text s => Record.scalar layout (.text s)
  | dateTime t => Record.scalar layout (.dateTime t)
  | timeSpan d => Record.scalar layout (.timeSpan d)
  | point p =>
    (Record.opening layout "point").andThen fun _ =>
      Record.scalarBlock layout [(.real p.x, "x", []), (.real p.y, "y", [])]
  | vector xs =>
    (Record.opening layout "vector").andThen fun _ =>
      (lengthBlock layout xs.length).andThen fun _ => writeReals layout xs
  | pointVector ps =>
    (Record.opening layout "pointvector").andThen fun _ =>
      (lengthBlock layout ps.length).andThen fun _ =>
        writeReals layout (ps.flatMap fun p => [p.x, p.y])
  | matrix m =>
    (Record.opening layout "matrix").andThen fun _ =>
      (Record.scalarBlock layout
        [(.int (Int64.ofNat m.rows), "rows", []), (.int (Int64.ofNat m.cols), "cols", [])]).andThen
        fun _ => writeReals layout m.data
  | array elem items =>
    (Record.opening layout "array").andThen fun _ =>
      (Record.scalarBlock layout
        [(.text elem.name, "elem", "element kind"),
          (.int (Int64.ofNat items.length), "length", [])]).andThen
        fun _ => writeItems layout out items
  | list items =>
    (Record.opening layout "list").andThen fun _ =>
      (lengthBlock layout items.length).andThen fun _ => writeItems layout out items
  | context c => (Record.opening layout "context").andThen fun _ => out.context c
  | handle _ => .fail (.notStorable Kind.object.name)
  | object tag o => (Record.opening layout tag).andThen fun _ => out.object o

/-- Writes the items of a sequence. -/
def writeItems (layout : Layout) (out : Outlet) : List Value → Emission
  | [] => .done
  | v :: rest => (write layout out v).andThen fun _ => writeItems layout out rest

end

/-- Why a variable keeps its context, met inside of the contexts `inside`, from being written at
all: it holds one of them directly, or a handle. -/
def refusal? (inside : List ContextId) (name : Text) : Value → Option Error
  | context c => if c ∈ inside then some (.cycle name) else none
  | handle _ => some (.notStorable Kind.object.name)
  | _ => none

end Value

namespace Datum

/-- Writes what a field holds. -/
def write (layout : Layout) (out : Outlet) : Option Datum → Emission
  | none => .fail (.notStorable "<nil>")
  | some (.color c) => Record.scalar layout (.color c)
  | some (.value (.handle hostType)) => .fail (.notStorable hostType)
  | some (.value v) => v.write layout out

end Datum

namespace Heap

/-- How contexts and objects are written inside of the contexts `inside`, to a depth of `fuel`. -/
def outlet (h : Heap) (layout : Layout) : (fuel : Nat) → (inside : List ContextId) → Outlet
  | 0, _ => ⟨fun _ => .fail (.cycle []), fun _ => .fail (.cycle [])⟩
  | fuel + 1, inside =>
    { context := fun c =>
        if c ∈ inside then .fail (.cycle [])
        else
          let vars := (h.context c).vars
          match vars.findSome? fun (name, v) => v.refusal? (c :: inside) name with
          | some e => .fail e
          | none =>
            Record.block layout (Value.write layout (outlet h layout fuel (c :: inside)))
              (vars.map fun (name, v) => (v, name, []))
      object := fun o =>
        Record.block layout (Datum.write layout (outlet h layout fuel inside))
          ((h.object o).fields.map fun f => (f.value, f.name, f.comment)) }

/-- A depth that no walk exceeds: contexts on a path are distinct, and between two of them the
objects are too, since an object is younger than what it holds. -/
def depthBound (h : Heap) : Nat := (h.contexts.size + 2) * (h.objects.size + 2)

/-- How contexts and objects are written at the outermost level. -/
def outerOutlet (h : Heap) (layout : Layout) : Outlet := h.outlet layout h.depthBound []

/-- Writes a value as one record with the records of its parts. -/
def writeValue (h : Heap) (layout : Layout) : Option Value → Emission
  | none => .fail (.notStorable (Value.typeName? none))
  | some v => v.write layout (h.outerOutlet layout)

/-- Writes a field's content as it is. -/
def writeDatum (h : Heap) (layout : Layout) (d : Option Datum) : Emission :=
  Datum.write layout (h.outerOutlet layout) d

/-- Writes a block of fields. -/
def writeBlock (h : Heap) (layout : Layout) (fields : List Field) : Emission :=
  Record.block layout (h.writeDatum layout) (fields.map fun f => (f.value, f.name, f.comment))

end Heap

end Reckoner
