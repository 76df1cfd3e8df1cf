import Reckoner.Stream.Deflate
import Reckoner.Stream.Store

/-!
# Streams being written

A stream in one of the modes: records collect in the body, and the finished stream is the body
behind the header of its mode, compressed or as it is.
-/

namespace Reckoner

/-- A stream being written. -/
structure Writer where
  /-- The mode that the stream is written in. -/
  mode : Mode
  /-- The version name in the header. -/
  name : Text
  /-- The records written so far. -/
  body : Text := []

namespace Mode

/-- The layout of the records of a stream. -/
def layout : Mode → Layout
  | text => .lines
  | _ => .packed

/-- The first bytes of streams with a header. -/
def magic? : Mode → Option Text
  | binary => some "IEB1"
  | compressed => some "IEZ1"
  | _ => none

end Mode

namespace Stream

/-- The version of the format. -/
def version : Nat := 1

/-- The version name of streams that are given no other. -/
def defaultName : Text := "expressions"

/-- The compression level that stands for the compressor's own choice. -/
def defaultLevel : Int := -1

/-- The header of a stream. -/
def header (mode : Mode) (name : Text) : Text :=
  match mode.magic? with
  | none => []
  | some magic => magic ++ Record.littleEndian 4 version ++ Record.packedText name

/-- The finished stream with the given records. -/
def assemble (mode : Mode) (name : Text) (body : Text) : Text :=
  header mode name ++ (if mode = .compressed then Deflate.store body else body)

end Stream

namespace Writer

/-- An empty stream. The level only matters to compressed streams, and there only by being one
the compressor knows. -/
def create (mode : Mode) (name : Text) (level : Int) : Except Error Writer :=
  match mode with
  | .other _ => .error (.other ("ie: invalid mode " ++ mode.name))
  | _ =>
    if mode = .compressed && (level < -2 || 9 < level) then
      .error (.other ("flate: invalid compression level " ++ Text.ofInt level
        ++ ": want value in range [-2, 9]"))
    else .ok { mode, name }

/-- An empty stream with the usual header. -/
def start (mode : Mode) : Except Error Writer :=
  create mode Stream.defaultName Stream.defaultLevel

/-- Appends what a write puts out; a failed write stays as far as it got. -/
def put (w : Writer) (e : Emission) : Writer × Except Error Unit :=
  ({ w with body := w.body ++ e.bytes },
    match e.error with
    | none => .ok ()
    | some error => .error error)

/-- The finished stream. -/
def finish (w : Writer) : Text := Stream.assemble w.mode w.name w.body

/-- Appends a value. -/
def putValue (w : Writer) (h : Heap) (v : Option Value) : Writer × Except Error Unit :=
  w.put (h.writeValue w.mode.layout v)

/-- Appends a field's content as it is. -/
def putDatum (w : Writer) (h : Heap) (d : Option Datum) : Writer × Except Error Unit :=
  w.put (h.writeDatum w.mode.layout d)

/-- Appends writes in order, each whether or not the ones before it failed. -/
def putAll (w : Writer) : List (Writer → Writer × Except Error Unit) →
    Writer × List (Except Error Unit)
  | [] => (w, [])
  | write :: rest =>
    let (w, r) := write w
    let (w, rs) := putAll w rest
    (w, r :: rs)

end Writer

end Reckoner
