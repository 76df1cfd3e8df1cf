import Reckoner.Number.Numeral
import Reckoner.Stream.Record

/-!
# Decoders

A decoder reads the tags and payloads of records, one after another. Its state is what has not
been read: the bytes of a packed stream, or the lines of a text stream together with the tokens
of the current line that are left over. It stays usable after an error, and then goes on from
where the error was noticed.
-/

namespace Reckoner

/-- The type of a payload. -/
inductive ScalarType where
  | int
  | real
  | text
  | bool
  | dateTime
  | timeSpan
  | color
  deriving DecidableEq, Repr

namespace ScalarType

/-- The type of payload that a built-in tag announces. -/
def ofTag? (tag : Text) : Option ScalarType :=
  ([("int", int), ("double", real), ("real", real), ("string", text), ("bool", bool),
    ("datetime", dateTime), ("timespan", timeSpan), ("color", color)] :
    List (Text × ScalarType)).lookup tag

end ScalarType

/-- What a step of a decoder gives: a result or an error, and the state to go on from. -/
abbrev Step (σ α : Type) := Except Error α × σ

namespace Step

variable {σ τ α β : Type}

/-- Goes on with the result of a step. -/
def bind (s : Step σ α) (f : α → σ → Step σ β) : Step σ β :=
  match s.1 with
  | .ok a => f a s.2
  | .error e => (.error e, s.2)

/-- Changes how the state is seen. -/
def map (f : σ → τ) (s : Step σ α) : Step τ α := (s.1, f s.2)

end Step

/-- The longest text of a packed stream. -/
def maxToken : Nat := Nat.pow 2 28

/-! ### Packed streams -/

/-- A packed stream: the bytes that are left, and what is wrong at their end if it is not the
proper end. -/
structure Packed where
  /-- The bytes that are left. -/
  rest : Text
  /-- What is wrong at their end. -/
  ending : Option Error := none

namespace Packed

/-- The error for bytes that end inside of something. -/
def short (p : Packed) (what : Text) : Error :=
  .malformed ("reading " ++ what) 0 (some (p.ending.getD .unexpectedEnd))

/-- Reads a number of variable length. -/
def varint (what : Text) (p : Packed) : Step Packed Nat :=
  match Varint.decode p.rest with
  | .value n rest => (.ok n, { p with rest })
  | .ended => (.error (p.short what), { p with rest := [] })
  | .overflow rest =>
    (.error (.malformed ("reading " ++ what) 0
      (some (.other "binary: varint overflows a 64-bit integer"))), { p with rest })

/-- Reads a number of bytes. -/
def take (what : Text) (n : Nat) (p : Packed) : Step Packed Text :=
  let bytes := p.rest.take n
  if bytes.length < n then (.error (p.short what), { p with rest := [] })
  else (.ok bytes, { p with rest := p.rest.drop n })

/-- Reads a text that is preceded by its length. -/
def sized (what : Text) (p : Packed) : Step Packed Text :=
  (p.varint what).bind fun n p =>
    if maxToken < n then
      (.error (malformed (what ++ " length " ++ Text.ofNat n ++ " out of range")), p)
    else p.take what n

/-- Reads a tag; there is none at the proper end. -/
def tag (p : Packed) : Step Packed (Option Text) :=
  match p.rest, p.ending with
  | [], none => (.ok none, p)
  | [], some _ => (.error (p.short "tag"), p)
  | _, _ => (p.sized "tag").bind fun t p => (.ok (some t), p)

/-- The number whose bytes are given, the low ones first. -/
def ofLittleEndian (t : Text) : Nat := t.foldr (fun b n => b.toNat + 256 * n) 0

/-- Reads a payload. -/
def payload (type : ScalarType) (p : Packed) : Step Packed Scalar :=
  match type with
  | .int => (p.varint "int").bind fun n p => (.ok (.int (Varint.unfold n)), p)
  | .real => (p.take "double" 8).bind fun t p => (.ok (.real ⟨(ofLittleEndian t).toUInt64⟩), p)
  | .text => (p.sized "string").bind fun t p => (.ok (.text t), p)
  | .bool => (p.take "bool" 1).bind fun t p =>
    match t with
    | [0] => (.ok (.bool false), p)
    | [1] => (.ok (.bool true), p)
    | _ => (.error (malformed ("bad bool byte " ++ Text.ofNat (ofLittleEndian t))), p)
  | .dateTime => (p.sized "datetime").bind fun t p =>
    match DateTime.unpack t with
    | .ok d => (.ok (.dateTime d), p)
    | .error e => (.error (.malformed "reading datetime" 0 (some (.other e.message))), p)
  | .timeSpan => (p.varint "timespan").bind fun n p => (.ok (.timeSpan (Varint.unfold n)), p)
  | .color => (p.take "color" 4).bind fun t p =>
    match t with
    | [r, g, b, a] => (.ok (.color ⟨r, g, b, a⟩), p)
    | _ => (.error (p.short "color"), p)

end Packed

/-! ### Text streams -/

/-- A text stream: the lines that are left, the tokens of the current line that are left, and
the number of the current line. -/
structure Lines where
  /-- The lines that are left, without their ends. -/
  rest : List Text
  /-- The tokens of the current line that are left, still escaped. -/
  tokens : List Text := []
  /-- The number of the current line, and zero in front of the first one. -/
  line : Nat := 0

namespace Lines

/-- The lines of a text; a last line may lack its line feed. -/
def split (t : Text) : List Text :=
  let pieces := Text.splitAtByte 10 t
  if pieces.getLast? = some [] then pieces.dropLast else pieces

/-- The stream of a text. -/
def ofText (t : Text) : Lines := { rest := split t }

/-- The line without one carriage return at its end. -/
def trimReturn (l : Text) : Text := if l.getLast? = some 13 then l.dropLast else l

/-- The next line that is not blank, its number, and the lines behind it. -/
def nextLine : (line : Nat) → List Text → Option (Text × Nat × List Text)
  | _, [] => none
  | n, l :: rest =>
    if (trimReturn l).isEmpty then nextLine (n + 1) rest else some (trimReturn l, n + 1, rest)

/-- An error on the current line. -/
def fault (s : Lines) (message : Text) (cause : Option Error) : Error :=
  .malformed message s.line cause

/-- Reads a token of the current line. -/
def token (what : Text) (s : Lines) : Step Lines Text :=
  match s.tokens with
  | [] => (.error (s.fault ("missing " ++ what) (some .unexpectedEnd)), s)
  | t :: tokens =>
    match Token.unescape t with
    | .ok u => (.ok u, { s with tokens })
    | .error e =>
      (.error (s.fault ("reading " ++ what) (some (.other e.message))), { s with tokens })

/-- Reads a tag from the next line; there is none at the end. -/
def tag (s : Lines) : Step Lines (Option Text) :=
  if s.tokens.isEmpty then
    match nextLine s.line s.rest with
    | none => (.ok none, { s with rest := [] })
    | some (l, line, rest) =>
      (token "tag" { rest, tokens := Text.splitAtByte 9 l, line }).bind fun t s =>
        (.ok (some t), s)
  else (.error (s.fault "unterminated record" none), s)

/-- Reads a token with a reader of numerals. -/
def numeral {α : Type} (what : Text) (reader : Text) (read : Text → Except NumeralFault α)
    (s : Lines) : Step Lines α :=
  (s.token what).bind fun t s =>
    match read t with
    | .ok a => (.ok a, s)
    | .error e => (.error (s.fault ("reading " ++ what) (some (.other (e.message reader t)))), s)

/-- Reads a color. -/
def color (s : Lines) : Step Lines Color :=
  (s.token "color").bind fun t s =>
    let bad (cause : Option Error) : Error := s.fault ("bad color " ++ Text.quote t) cause
    match t with
    | 35 :: digits =>
      if digits.length ≠ 8 then (.error (bad none), s)
      else
        match Numeral.hex? 0 digits with
        | .ok n =>
          (.ok ⟨(n / 16777216).toUInt8, (n / 65536).toUInt8, (n / 256).toUInt8, n.toUInt8⟩, s)
        | .error e => (.error (bad (some (.other (e.message "strconv.ParseUint" digits)))), s)
    | _ => (.error (bad none), s)

/-- Reads a payload. -/
def payload (type : ScalarType) (s : Lines) : Step Lines Scalar :=
  match type with
  | .int => (s.numeral "int" "strconv.ParseInt" Numeral.int64?).bind fun n s => (.ok (.int n), s)
  | .real =>
    (s.numeral "double" "strconv.ParseFloat" Numeral.double?).bind fun x s => (.ok (.real x), s)
  | .text => (s.token "string").bind fun t s => (.ok (.text t), s)
  | .bool =>
    (s.numeral "bool" "strconv.ParseBool" Numeral.bool?).bind fun b s => (.ok (.bool b), s)
  | .dateTime => (s.token "datetime").bind fun t s =>
    match DateTime.read t with
    | .ok d => (.ok (.dateTime d), s)
    | .error e => (.error (s.fault "reading datetime" (some (.other (e.message t)))), s)
  | .timeSpan =>
    (s.numeral "int" "strconv.ParseInt" Numeral.int64?).bind fun n s => (.ok (.timeSpan n), s)
  | .color => s.color.bind fun c s => (.ok (.color c), s)

/-- Checks that the current line has no token left. -/
def endRecord (s : Lines) : Step Lines Unit :=
  match s.tokens with
  | [] => (.ok (), s)
  | t :: _ => (.error (s.fault ("unexpected token " ++ Text.quote t) none), s)

end Lines

/-! ### Both -/

/-- A stream in either layout. -/
inductive Decoder where
  /-- Bytes. -/
  | packed (p : Packed)
  /-- Lines of tokens. -/
  | lines (s : Lines)

namespace Decoder

/-- Reads a tag; there is none at the end of the stream. -/
def tag : Decoder → Step Decoder (Option Text)
  | packed p => p.tag.map packed
  | lines s => s.tag.map lines

/-- Reads the payload that a tag announces. -/
def payload (type : ScalarType) : Decoder → Step Decoder Scalar
  | packed p => (p.payload type).map packed
  | lines s => (s.payload type).map lines

/-- Ends a record. Packed records have no mark at their end. -/
def endRecord : Decoder → Step Decoder Unit
  | packed p => (.ok (), packed p)
  | lines s => s.endRecord.map lines

/-- A bound on how many more records there are. -/
def size : Decoder → Nat
  | packed p => p.rest.length
  | lines s => s.rest.length

end Decoder

end Reckoner
