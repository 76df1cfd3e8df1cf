import Reckoner.Heap

/-!
# Blocks

A block is an ordered list of fields that are addressed by position. Names and comments only
describe; a field that is missing, because the block was written before it existed, reads as a
default.
-/

namespace Reckoner

namespace Datum

/-- The host's name for the type of what a field holds. -/
def hostType (h : Heap) : Option Datum → Text
  | none => "<nil>"
  | some (.color _) => "color.RGBA"
  | some (.value v) => match v with
    | .int _ => "int64"
    | .real _ => "float64"
    | .bool _ => "bool"
    | .text _ => "string"
    | .dateTime _ => "time.Time"
    | .timeSpan _ => "time.Duration"
    | .point _ => "*expressions.Point"
    | .vector _ => "*expressions.Vector"
    | .pointVector _ => "*expressions.PointVector"
    | .matrix _ => "*expressions.Matrix"
    | .array _ _ => "*expressions.Array"
    | .list _ => "*expressions.List"
    | .context _ => "*expressions.Context"
    | .handle hostType => hostType
    | .object _ o => (h.object o).hostType

/-- The text of what a field holds inside a message. -/
def shown (h : Heap) : Option Datum → Text
  | none => "<nil>"
  | some (.color c) =>
    "\x7b" ++ Text.join " " ([c.red, c.green, c.blue, c.alpha].map fun b => Text.ofNat b.toNat)
      ++ "\x7d"
  | some (.value (.dateTime t)) => t.longText
  | some (.value v) => h.text v

end Datum

namespace Field

/-- The content of a field as seen by `view`; a missing field reads as the default. `want` names
the type that `view` accepts. -/
def read {α : Type} (h : Heap) (want : Text) (default : α) (view : Option Datum → Option α)
    (fields : List Field) (index : Nat) : Except Error α :=
  match fields[index]? with
  | none => .ok default
  | some f =>
    match view f.value with
    | some a => .ok a
    | none =>
      .error (malformed ("field " ++ Text.ofNat index ++ " holds " ++ Datum.hostType h f.value
        ++ ", want " ++ want))

/-- A field that holds an integer, by default zero. -/
def readInt (h : Heap) (fields : List Field) (index : Nat) : Except Error Int64 :=
  read h "int" 0 (fun d => match d with
    | some (.value (.int n)) => some n
    | _ => none) fields index

/-- A field that holds a real, by default zero. -/
def readReal (h : Heap) (fields : List Field) (index : Nat) : Except Error Binary64 :=
  read h "float64" Binary64.zero (fun d => match d with
    | some (.value (.real x)) => some x
    | _ => none) fields index

/-- A field that holds a string, by default the empty one. -/
def readText (h : Heap) (fields : List Field) (index : Nat) : Except Error Text :=
  read h "string" [] (fun d => match d with
    | some (.value (.text s)) => some s
    | _ => none) fields index

end Field

/-- A block with the position of the field that is read next. -/
structure Block where
  /-- All fields of the block. -/
  fields : List Field := []
  /-- How many of them have been read. -/
  position : Nat := 0

namespace Block

/-- Appends a field. -/
def add (b : Block) (f : Field) : Block := { b with fields := b.fields ++ [f] }

/-- How many fields have not been read. -/
def remaining (b : Block) : Nat := b.fields.length - b.position

/-- Goes back to the first field. -/
def rewind (b : Block) : Block := { b with position := 0 }

/-- The field with a number. -/
def item (b : Block) (i : Int) : Except Error Field :=
  match if i < 0 then none else b.fields[i.toNat]? with
  | some f => .ok f
  | none => .error (.fault none)

/-- The content of the next field, or the default behind the last one. -/
def next (b : Block) (default : Option Datum) : Option Datum × Block :=
  ((match b.fields[b.position]? with
    | some f => f.value
    | none => default), { b with position := b.position + 1 })

/-- The content of the next field if it has the host's type `want`. A plain `int` is stored as
an `int64`. -/
def nextAs (b : Block) (h : Heap) (want : Text) (default : Option Datum) :
    Except Error (Option Datum) × Block :=
  let stored : Text := if want = Text.ofString "int" then "int64" else want
  (Field.read h want default
    (fun d => if Datum.hostType h d = stored then some d else none) b.fields b.position,
    { b with position := b.position + 1 })

end Block

end Reckoner
