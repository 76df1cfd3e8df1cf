import Reckoner.Number.Decimal
import Reckoner.Stream.Escape
import Reckoner.Stream.Varint

/-!
# Records

A stream is a sequence of records. A record has a tag and, if the tag is one of the built-in
ones, a scalar as payload. Records are laid out in one of two ways: as lines of escaped tokens
divided by tabs, or packed, where texts are preceded by their length and numbers have binary
forms.

Composite values are written as a tag without payload, a block that describes them, and records
for their parts. A block is the number of its fields and, for each, three records: what it holds,
a name and a comment.
-/

namespace Reckoner

/-- How records are laid out. -/
inductive Layout where
  /-- A record is a line of tokens. -/
  | lines
  /-- A record is a tag with its length and the bytes of the payload. -/
  | packed
  deriving DecidableEq, Repr

/-- The payload of a record with a built-in tag. -/
inductive Scalar where
  /-- Packed as a number of variable length, the sign in the lowest bit. -/
  | int (n : Int64)
  /-- Packed as its eight bytes. -/
  | real (x : Binary64)
  /-- Packed as its length and its bytes. -/
  | text (s : Text)
  /-- Packed as one byte. -/
  | bool (b : Bool)
  /-- Packed as the bytes of its own binary form. -/
  | dateTime (t : DateTime)
  /-- Packed like an integer. -/
  | timeSpan (nanos : Int64)
  /-- Packed as one byte for each channel. -/
  | color (c : Color)
  deriving Repr

/-- What a write puts out, and why it stopped if it did not finish. -/
structure Emission where
  /-- What has been put out, also in front of an error. -/
  bytes : Text
  /-- Why the write did not finish. -/
  error : Option Error := none

namespace Emission

/-- Nothing is put out. -/
def done : Emission := ⟨[], none⟩

/-- A failure before anything is put out. -/
def fail (e : Error) : Emission := ⟨[], some e⟩

/-- Goes on with another write if the first one finished. -/
def andThen (a : Emission) (b : Unit → Emission) : Emission :=
  match a.error with
  | some _ => a
  | none =>
    let rest := b ()
    ⟨a.bytes ++ rest.bytes, rest.error⟩

/-- One write for each item, in order. -/
def each {α : Type} (write : α → Emission) : List α → Emission
  | [] => done
  | x :: rest => (write x).andThen fun _ => each write rest

end Emission

namespace Scalar

/-- The built-in tag of a payload. -/
def tag : Scalar → Text
  | int _ => "int"
  | real _ => "double"
  | text _ => "string"
  | bool _ => "bool"
  | dateTime _ => "datetime"
  | timeSpan _ => "timespan"
  | color _ => "color"

/-- Tags that cannot be given to objects. `real` is an old name of `double`. -/
def builtinTags : List Text :=
  ["int", "double", "real", "string", "bool", "datetime", "timespan", "color"]

/-- The payload as a token of a line, before escaping. -/
def token : Scalar → Text
  | int n => Text.ofInt n.toInt
  | real x => x.text
  | text s => s
  | bool b => if b then "true" else "false"
  | dateTime t => t.text
  | timeSpan d => Text.ofInt d.toInt
  | color c => "#" ++ [c.red, c.green, c.blue, c.alpha].flatMap fun b => Text.ofHex 2 b.toNat

end Scalar

namespace Record

/-- The low `count` bytes of a number, the low ones first. -/
def littleEndian : (count : Nat) → Nat → Text
  | 0, _ => []
  | count + 1, n => n.toUInt8 :: littleEndian count (n / 256)

/-- A text preceded by its length. -/
def packedText (t : Text) : Text := Varint.encode t.length ++ t

/-- The packed form of a payload. Only instants have none, those in a zone one minute west of
Greenwich or of more minutes than sixteen bits hold. -/
def packedPayload : Scalar → Emission
  | .int n => ⟨Varint.encode (Varint.fold n), none⟩
  | .real x => ⟨littleEndian 8 x.bits.toNat, none⟩
  | .text s => ⟨packedText s, none⟩
  | .bool b => ⟨[if b then 1 else 0], none⟩
  | .dateTime t =>
    match t.pack? with
    | some bytes => ⟨packedText bytes, none⟩
    | none => .fail (.other "Time.MarshalBinary: unexpected zone offset")
  | .timeSpan d => ⟨Varint.encode (Varint.fold d), none⟩
  | .color c => ⟨[c.red, c.green, c.blue, c.alpha], none⟩

/-- The tokens of one line. -/
def line (tokens : List Text) : Text := Text.join "\t" (tokens.map Token.escape) ++ "\n"

/-- The record of a scalar. -/
def scalar (layout : Layout) (s : Scalar) : Emission :=
  match layout with
  | .lines => ⟨line [s.tag, s.token], none⟩
  | .packed => Emission.andThen ⟨packedText s.tag, none⟩ fun _ => packedPayload s

/-- A record that is only a tag. -/
def opening (layout : Layout) (tag : Text) : Emission :=
  match layout with
  | .lines => ⟨line [tag], none⟩
  | .packed => ⟨packedText tag, none⟩

/-- A record of a count. -/
def count (layout : Layout) (n : Nat) : Emission := scalar layout (.int (Int64.ofNat n))

/-- The three records of a field. -/
def field {α : Type} (layout : Layout) (write : α → Emission) (f : α × Text × Text) : Emission :=
  (write f.1).andThen fun _ =>
    (scalar layout (.text f.2.1)).andThen fun _ => scalar layout (.text f.2.2)

/-- A block of fields, each with a name and a comment. -/
def block {α : Type} (layout : Layout) (write : α → Emission) (fields : List (α × Text × Text)) :
    Emission :=
  (count layout fields.length).andThen fun _ => Emission.each (field layout write) fields

/-- A block of scalars. -/
def scalarBlock (layout : Layout) (fields : List (Scalar × Text × Text)) : Emission :=
  block layout (scalar layout) fields

end Record

end Reckoner
