import Reckoner.Number.Binary64
import Reckoner.Time.DateTime
import Reckoner.Value.Kind

/-!
# Values

The values of the language. Contexts and user-defined objects are shared and, in the case of
contexts, can change, so a value only holds their number; what stands behind the number is kept
in the heap.

Items of an array are meant to have the array's element kind, and the elements of a matrix to be
as many as its rows times its columns; the constructors check this, and the type does not.
-/

namespace Reckoner

/-- A point in the plane. -/
structure Point where
  x : Binary64
  y : Binary64
  deriving DecidableEq, Repr

/-- A matrix, its elements row by row. -/
structure Matrix where
  rows : Nat
  cols : Nat
  /-- The elements, row by row. -/
  data : List Binary64
  deriving DecidableEq, Repr

/-- The number of a context. -/
abbrev ContextId := Nat

/-- The number of a user-defined object. -/
abbrev ObjectId := Nat

/-- A value of the language. -/
inductive Value where
  /-- An integer of 64 bits. -/
  | int (n : Int64)
  /-- A double. -/
  | real (x : Binary64)
  | bool (b : Bool)
  /-- A string, of any bytes. -/
  | text (s : Text)
  /-- A point in time. -/
  | dateTime (t : DateTime)
  /-- A span of time in nanoseconds. -/
  | timeSpan (nanos : Int64)
  /-- A point in the plane. -/
  | point (p : Point)
  | vector (xs : List Binary64)
  | pointVector (ps : List Point)
  | matrix (m : Matrix)
  /-- A homogeneous sequence. -/
  | array (elem : Kind) (items : List Value)
  /-- A heterogeneous sequence. -/
  | list (items : List Value)
  /-- A scope of variables, which is shared and not copied. -/
  | context (c : ContextId)
  /-- A thing of the host without a stored form, of a type that the host names. All handles are
  equal. -/
  | handle (hostType : Text)
  /-- A user-defined object that is stored under its tag. -/
  | object (tag : Text) (o : ObjectId)
  deriving Inhabited, Repr

namespace Value

/-- The kind of a value. A handle is an object that has no tag. -/
def kind : Value → Kind
  | int _ => .int
  | real _ => .real
  | bool _ => .bool
  | text _ => .text
  | dateTime _ => .dateTime
  | timeSpan _ => .timeSpan
  | point _ => .point
  | vector _ => .vector
  | pointVector _ => .pointVector
  | matrix _ => .matrix
  | array _ _ => .array
  | list _ => .list
  | context _ => .context
  | handle _ => .object
  | object _ _ => .object

/-- The name of the type of a value in messages: the kind, or the tag of an object. -/
def typeName : Value → Text
  | object tag _ => tag
  | v => v.kind.name

/-- The name of the type of what may be no value at all. -/
def typeName? : Option Value → Text
  | some v => v.typeName
  | none => "null"

/-- The items of a sequence. -/
def items? : Value → Option (List Value)
  | array _ items => some items
  | list items => some items
  | _ => none

end Value

/-- A color with four channels. -/
structure Color where
  red : UInt8
  green : UInt8
  blue : UInt8
  /-- How opaque the color is. -/
  alpha : UInt8
  deriving DecidableEq, Repr

/-- What one record of a stream can hold: a value, or a color, which the language has no values
for. -/
inductive Datum where
  /-- A value. -/
  | value (v : Value)
  /-- A color. -/
  | color (c : Color)
  deriving Inhabited, Repr

/-- A field of a block: what it holds, if anything, and two descriptive texts. -/
structure Field where
  /-- What the field holds. -/
  value : Option Datum
  /-- The name of the variable in a context, and a description elsewhere. -/
  name : Text
  /-- A remark that no reader looks at. -/
  comment : Text
  deriving Inhabited, Repr

end Reckoner
