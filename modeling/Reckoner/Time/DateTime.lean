import Reckoner.Text.Utf8
import Reckoner.Time.Calendar

/-!
# Points in time

A point in time counts seconds from the start of year 1 and nanoseconds within the second, and
remembers the zone it was given in. The zone only matters for texts and streams: two points in
time are equal if they are the same instant.

The text form is that of RFC 3339 with as many digits behind the second as needed. `read`
accepts that form, and says where and why it refuses any other; `pack` and `unpack?` are the
binary form.
-/

namespace Reckoner

/-- The zone of a point in time: universal time, or a distance from it in seconds. -/
inductive Zone where
  /-- Universal time. -/
  | utc
  /-- So many seconds ahead of universal time. -/
  | offset (seconds : Int)
  deriving DecidableEq, Repr

namespace Zone

/-- The distance from universal time in seconds. -/
def seconds : Zone → Int
  | utc => 0
  | offset s => s

end Zone

/-- A point in time. -/
structure DateTime where
  /-- Seconds since the start of year 1, universal time. -/
  seconds : Int
  /-- Nanoseconds within the second. -/
  nanos : Nat
  /-- The zone that it is shown in. -/
  zone : Zone
  deriving DecidableEq, Repr

namespace DateTime

/-- Whether two points in time are the same instant. -/
def same (t u : DateTime) : Bool := t.seconds = u.seconds && t.nanos = u.nanos

/-- The order of instants. -/
def order (t u : DateTime) : Ordering :=
  (compare t.seconds u.seconds).then (compare t.nanos u.nanos)

/-- Seconds are kept in 64 bits; a sum outside of them becomes the nearest bound. -/
def clampSeconds (s : Int) : Int :=
  if Nat.pow 2 63 ≤ s then Nat.pow 2 63 - 1
  else if s < -(Nat.pow 2 63) then -(Nat.pow 2 63 - 1) else s

/-- The point in time a number of nanoseconds later, in the same zone. -/
def add (t : DateTime) (span : Int64) : DateTime :=
  let whole := span.toInt.tdiv 1000000000
  let nanos := (t.nanos : Int) + span.toInt.tmod 1000000000
  let (carry, nanos) : Int × Int :=
    if 1000000000 ≤ nanos then (1, nanos - 1000000000)
    else if nanos < 0 then (-1, nanos + 1000000000)
    else (0, nanos)
  { t with seconds := clampSeconds (t.seconds + (whole + carry)), nanos := nanos.toNat }

/-- The number of nanoseconds from `u` to `t`, or the nearest span if that does not fit. -/
def sub (t u : DateTime) : Int64 :=
  let d := (t.seconds - u.seconds) * 1000000000 + ((t.nanos : Int) - u.nanos)
  let d64 := Int64.ofInt d
  if same (add u d64) t then d64
  else if order t u == .lt then Int64.minValue
  else Int64.maxValue

/-! ### Texts -/

/-- The distance from the earliest representable instant to the start of year 1. -/
def epochShift : Int := 9223371966579724800

/-- The local date and the second of the day. -/
def civil (t : DateTime) : Date × Nat :=
  let s := (t.seconds + t.zone.seconds + epochShift) % Nat.pow 2 64 - epochShift
  (Date.ofDayNumber (s.fdiv 86400), (s.fmod 86400).toNat)

/-- A number in at least two digits. -/
def twoDigits (n : Nat) : Text := Text.padLeft '0' 2 (Text.ofNat n)

/-- A year in at least four digits, with a minus sign before the year zero. -/
def yearText (y : Int) : Text :=
  (if y < 0 then "-" else "") ++ Text.padLeft '0' 4 (Text.ofNat y.natAbs)

/-- A date, as texts of instants start. -/
def dateText (d : Date) : Text :=
  yearText d.year ++ "-" ++ twoDigits d.month ++ "-" ++ twoDigits d.day

/-- The time of day after a number of seconds. -/
def clockText (s : Nat) : Text :=
  twoDigits (s / 3600) ++ ":" ++ twoDigits (s / 60 % 60) ++ ":" ++ twoDigits (s % 60)

/-- The digits behind the second, without trailing zeros; nothing at all for zero. -/
def nanosText (nanos : Nat) : Text :=
  if nanos = 0 then []
  else
    let digits := Text.padLeft '0' 9 (Text.ofNat nanos)
    Text.byte '.' :: (digits.reverse.dropWhile (· == Text.byte '0')).reverse

/-- A zone distance in hours and minutes, `sep` between them. -/
def zoneText (sep : String) (seconds : Int) : Text :=
  let minutes := seconds.tdiv 60
  (if minutes < 0 then "-" else "+") ++ twoDigits (minutes.natAbs / 60) ++ sep
    ++ twoDigits (minutes.natAbs % 60)

/-- The text of a point in time. -/
def text (t : DateTime) : Text :=
  let (date, clock) := t.civil
  dateText date ++ "T" ++ clockText clock ++ nanosText t.nanos
    ++ (if t.zone.seconds = 0 then ("Z" : Text) else zoneText ":" t.zone.seconds)

/-- The long text: date, time and zone apart, and the name of the zone, which is its distance
again unless that is zero. -/
def longText (t : DateTime) : Text :=
  let (date, clock) := t.civil
  let zone := zoneText "" t.zone.seconds
  dateText date ++ " " ++ clockText clock ++ nanosText t.nanos ++ " " ++ zone ++ " "
    ++ (if t.zone.seconds = 0 then ("UTC" : Text) else zone)

/-! ### Reading texts -/

/-- Why a text is no point in time. -/
inductive ReadFault where
  /-- `found` stands where the part of the layout `want` should. -/
  | mismatch (found : Text) (want : String)
  /-- The named part has a value that does not exist. -/
  | outOfRange (part : String)
  /-- More text follows. -/
  | extra (found : Text)
  deriving DecidableEq, Repr

/-- The layout texts are read by, as error messages quote it. -/
def layout : String := "2006-01-02T15:04:05.999999999Z07:00"

/-- A text between quotes, bytes outside of ASCII and control characters as escapes. -/
def plainQuote (t : Text) : Text :=
  let shown (b : UInt8) : Text :=
    if 0x80 ≤ b || b < 0x20 then "\\x" ++ Text.ofHex 2 b.toNat
    else if b = 34 || b = 92 then [92, b] else [b]
  "\"" ++ t.flatMap shown ++ "\""

/-- The message for a text that is no point in time. -/
def ReadFault.message (t : Text) : ReadFault → Text
  | mismatch found want =>
    "parsing time " ++ plainQuote t ++ " as " ++ plainQuote layout ++ ": cannot parse "
      ++ plainQuote found ++ " as " ++ plainQuote want
  | outOfRange part => "parsing time " ++ plainQuote t ++ ": " ++ part ++ " out of range"
  | extra found => "parsing time " ++ plainQuote t ++ ": extra text: " ++ plainQuote found

/-- A number of one or two digits, or of exactly two. -/
def readNumber? (exact : Bool) : Text → Option (Nat × Text)
  | a :: b :: rest =>
    if Text.isDigit a then
      if Text.isDigit b then some ((a.toNat - 48) * 10 + (b.toNat - 48), rest)
      else if exact then none else some (a.toNat - 48, b :: rest)
    else none
  | [a] => if Text.isDigit a && !exact then some (a.toNat - 48, []) else none
  | [] => none

/-- A number written for the layout part `want`. -/
def readPart (exact : Bool) (want : String) (t : Text) : Except ReadFault (Nat × Text) :=
  match readNumber? exact t with
  | some r => .ok r
  | none => .error (.mismatch t want)

/-- One fixed character. -/
def readMark (c : Char) (want : String) : Text → Except ReadFault Text
  | b :: rest => if b = Text.byte c then .ok rest else .error (.mismatch (b :: rest) want)
  | [] => .error (.mismatch [] want)

/-- Four digits of a year. -/
def readYear : Text → Except ReadFault (Nat × Text)
  | a :: b :: c :: d :: rest =>
    let ds := [a, b, c, d]
    if ds.all Text.isDigit then .ok (Text.digitsValue ds, rest)
    else .error (.mismatch (a :: b :: c :: d :: rest) "2006")
  | t => .error (.mismatch t "2006")

/-- The nanoseconds behind a point or comma, if there is one with a digit behind it. Digits
past the ninth are dropped. -/
def readNanos : Text → Nat × Text
  | p :: d :: rest =>
    if (p = Text.byte '.' || p = Text.byte ',') && Text.isDigit d then
      let digits := (d :: rest).takeWhile Text.isDigit
      let nine := digits.take 9
      (Text.digitsValue nine * Nat.pow 10 (9 - nine.length), (d :: rest).dropWhile Text.isDigit)
    else (0, p :: d :: rest)
  | t => (0, t)

/-- The zone: the letter Z, or a signed distance in hours and minutes. -/
def readZone (t : Text) : Except ReadFault (Zone × Text) :=
  match t with
  | 90 :: rest => .ok (.utc, rest)
  | sign :: h1 :: h2 :: colon :: m1 :: m2 :: rest =>
    if colon ≠ Text.byte ':' then .error (.mismatch t "Z07:00")
    else
      match readNumber? true [h1, h2], readNumber? true [m1, m2] with
      | some (h, _), some (m, _) =>
        if 60 < m then .error (.outOfRange "time zone offset minute")
        else if 24 < h then .error (.outOfRange "time zone offset hour")
        else
          let s : Int := (h * 60 + m) * 60
          if sign = Text.byte '+' then .ok (.offset s, rest)
          else if sign = Text.byte '-' then .ok (.offset (-s), rest)
          else .error (.mismatch t "Z07:00")
      | some (h, _), none =>
        if 24 < h then .error (.outOfRange "time zone offset hour")
        else .error (.mismatch t "Z07:00")
      | none, _ => .error (.mismatch t "Z07:00")
  | _ => .error (.mismatch t "Z07:00")

/-- The instant of a local date and time. -/
def ofCivil (date : Date) (clock nanos : Nat) (zone : Zone) : DateTime :=
  ⟨date.dayNumber * 86400 + clock - zone.seconds, nanos, zone⟩

/-- Reads the text of a point in time. The day is checked against its month only after all parts
have been read. -/
def read (t : Text) : Except ReadFault DateTime := do
  let (year, rest) ← readYear t
  let rest ← readMark '-' "-" rest
  let (month, rest) ← readPart true "01" rest
  if month = 0 || 12 < month then throw (.outOfRange "month")
  let rest ← readMark '-' "-" rest
  let (day, rest) ← readPart true "02" rest
  let rest ← readMark 'T' "T" rest
  let (hour, rest) ← readPart false "15" rest
  if 24 ≤ hour then throw (.outOfRange "hour")
  let rest ← readMark ':' ":" rest
  let (minute, rest) ← readPart true "04" rest
  if 60 ≤ minute then throw (.outOfRange "minute")
  let rest ← readMark ':' ":" rest
  let (second, rest) ← readPart true "05" rest
  if 60 ≤ second then throw (.outOfRange "second")
  let (nanos, rest) := readNanos rest
  let (zone, rest) ← readZone rest
  if !rest.isEmpty then throw (.extra rest)
  if day = 0 || Date.daysIn month year < day then throw (.outOfRange "day")
  return ofCivil ⟨year, month, day⟩ (hour * 3600 + minute * 60 + second) nanos zone

/-! ### The binary form -/

/-- The low `count` bytes of a number, most significant first. -/
def bigEndian : (count : Nat) → Nat → Text
  | 0, _ => []
  | c + 1, n => bigEndian c (n / 256) ++ [(n % 256).toUInt8]

/-- A number from its bytes, most significant first. -/
def ofBigEndian (t : Text) : Nat := t.foldl (fun n b => 256 * n + b.toNat) 0

/-- A two's complement number of `bits` bits. -/
def ofTwosComplement (bits n : Nat) : Int :=
  if Nat.pow 2 (bits - 1) ≤ n then (n : Int) - Nat.pow 2 bits else n

/-- The number that stands for `n` in some bits; what does not fit is cut off. -/
def toTwosComplement (bits : Nat) (n : Int) : Nat := (n % Nat.pow 2 bits).toNat

/-- The binary form: a version, the seconds in eight bytes, the nanoseconds in four, and the
minutes of the zone in two, where -1 stands for universal time. A zone with seconds has the
second version and one byte more. A zone of minus one minute has no form, nor has one beyond
two bytes. -/
def pack? (t : DateTime) : Option Text :=
  let head (version : UInt8) := version :: bigEndian 8 (toTwosComplement 64 t.seconds)
    ++ bigEndian 4 t.nanos
  match t.zone with
  | .utc => some (head 1 ++ [0xff, 0xff])
  | .offset s =>
    let minutes := s.tdiv 60
    let seconds := s.tmod 60
    if minutes < -32768 || minutes = -1 || 32767 < minutes then none
    else if seconds = 0 then some (head 1 ++ bigEndian 2 (toTwosComplement 16 minutes))
    else some (head 2 ++ bigEndian 2 (toTwosComplement 16 minutes)
      ++ bigEndian 1 (toTwosComplement 8 seconds))

/-- Why bytes are no binary form. -/
inductive UnpackFault where
  /-- There is no byte at all. -/
  | noData
  /-- The first byte names no known version. -/
  | version
  /-- There are too many bytes or too few. -/
  | length
  deriving DecidableEq, Repr

/-- What is said about bytes that are no instant. -/
def UnpackFault.message : UnpackFault → Text
  | noData => "Time.UnmarshalBinary: no data"
  | version => "Time.UnmarshalBinary: unsupported version"
  | length => "Time.UnmarshalBinary: invalid length"

/-- The seconds and nanoseconds of the two stored numbers. Nanoseconds are kept in 30 bits; a
negative number of them spills over into the seconds, of which 33 bits counted from the year
1885 are then kept in place of the stored ones. -/
def storedInstant (seconds nanos : Int) : Int × Nat :=
  let wall := toTwosComplement 64 nanos
  if 0 ≤ nanos then (seconds, wall % Nat.pow 2 30)
  else (59453308800 + (wall / Nat.pow 2 30 % Nat.pow 2 33 : Nat), wall % Nat.pow 2 30)

/-- Reads the binary form. -/
def unpack (t : Text) : Except UnpackFault DateTime :=
  match t with
  | [] => .error .noData
  | version :: body =>
    if version ≠ 1 && version ≠ 2 then .error .version
    else if body.length ≠ (if version = 1 then 14 else 15) then .error .length
    else
      let seconds := ofTwosComplement 64 (ofBigEndian (body.take 8))
      let nanos := ofTwosComplement 32 (ofBigEndian ((body.drop 8).take 4))
      let minutes := ofTwosComplement 16 (ofBigEndian ((body.drop 12).take 2))
      let extra : Int := (ofBigEndian (body.drop 14) : Nat)
      let distance := minutes * 60 + extra
      let (s, n) := storedInstant seconds nanos
      .ok ⟨s, n, if distance = -60 then .utc else .offset distance⟩

end DateTime

end Reckoner
