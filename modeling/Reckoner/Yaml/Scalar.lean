import Reckoner.Number.Numeral
import Reckoner.Time.DateTime
import Reckoner.Yaml.Node

/-!
# What scalars mean

A plain scalar without a tag is a number, a truth value, a point in time or nothing at all if it
looks like one, and a string otherwise. A tag asks for a meaning, and it is a fault if the text
does not have it. Quoted scalars are strings unless a tag says something else.
-/

namespace Reckoner

namespace Yaml

/-- The meanings that tags ask for. -/
inductive Tag where
  /-- No value. -/
  | null
  | bool
  | int
  /-- A number, be it whole or not. -/
  | float
  | timestamp
  | text
  /-- Bytes in base 64. -/
  | binary
  /-- The key under which mappings are merged. -/
  | merge
  /-- A tag with no meaning here. -/
  | other (name : Text)
  deriving DecidableEq, Repr

namespace Tag

/-- What the tags of the standard start with. -/
def standard : Text := "tag:yaml.org,2002:"

/-- A standard tag by the rest of its name. -/
def ofStandard (name : Text) : Tag :=
  if name = Text.ofString "null" then null
  else if name = Text.ofString "bool" then bool
  else if name = Text.ofString "int" then int
  else if name = Text.ofString "float" then float
  else if name = Text.ofString "timestamp" then timestamp
  else if name = Text.ofString "str" then text
  else if name = Text.ofString "binary" then binary
  else if name = Text.ofString "merge" then merge
  else other (standard ++ name)

/-- The tag with a name. A lone exclamation mark asks for nothing. -/
def ofText? (t : Text) : Option Tag :=
  if t.isEmpty || t = Text.ofString "!" then none
  else if standard.isPrefixOf t then some (ofStandard (t.drop standard.length))
  else if (Text.ofString "!!").isPrefixOf t then some (ofStandard (t.drop 2))
  else some (other t)

end Tag

/-- What a scalar means. -/
inductive Scalar where
  /-- No value. -/
  | null
  | bool (b : Bool)
  /-- An integer that fits into 64 bits, with or without a sign. -/
  | int (n : Int)
  /-- A number that is not written as an integer. -/
  | float (x : Binary64)
  /-- A date, with or without a time. -/
  | timestamp (t : DateTime)
  /-- Anything else. -/
  | text (t : Text)

/-- The tag that asks for a meaning. -/
def Scalar.tag : Scalar → Tag
  | null => .null
  | bool _ => .bool
  | int _ => .int
  | float _ => .float
  | timestamp _ => .timestamp
  | text _ => .text

/-! ### Words -/

/-- Whether a text is one of the words. -/
def isOneOf (words : List String) (t : Text) : Bool := words.any fun w => Text.ofString w == t

/-- The words with a meaning of their own. -/
def word? (t : Text) : Option Scalar :=
  if isOneOf ["true", "True", "TRUE"] t then some (.bool true)
  else if isOneOf ["false", "False", "FALSE"] t then some (.bool false)
  else if isOneOf ["", "~", "null", "Null", "NULL"] t then some .null
  else if isOneOf [".nan", ".NaN", ".NAN"] t then some (.float Binary64.nan)
  else if isOneOf [".inf", ".Inf", ".INF", "+.inf", "+.Inf", "+.INF"] t then
    some (.float (Binary64.infinity false))
  else if isOneOf ["-.inf", "-.Inf", "-.INF"] t then some (.float (Binary64.infinity true))
  else none

/-! ### Numbers -/

/-- The value of digits of a base. -/
def digitsIn (base : Nat) (t : Text) : Option Nat :=
  t.foldlM (fun n b => (Text.hexValue? b).bind fun d =>
    if d < base then some (base * n + d) else none) 0

/-- The value of at least one digit of a base. -/
def someDigitsIn (base : Nat) (t : Text) : Option Nat := if t.isEmpty then none else digitsIn base t

/-- A number without a sign: binary, octal or hexadecimal behind a zero and a letter, octal behind
a zero alone, and decimal otherwise. -/
def magnitude? (t : Text) : Option Nat :=
  match t with
  | 48 :: rest =>
    match rest with
    | x :: d :: digits =>
      let base := Text.lowerByte x
      if base = Text.byte 'b' then digitsIn 2 (d :: digits)
      else if base = Text.byte 'o' then digitsIn 8 (d :: digits)
      else if base = Text.byte 'x' then digitsIn 16 (d :: digits)
      else digitsIn 8 rest
    | _ => digitsIn 8 rest
  | _ => someDigitsIn 10 t

/-- A sign and the rest of a text. -/
def splitSign (t : Text) : Option Bool × Text :=
  match t with
  | 45 :: rest => (some true, rest)
  | 43 :: rest => (some false, rest)
  | _ => (none, t)

/-- The signed number of a magnitude, if it fits into 64 bits; without a sign it may be larger by
one bit. -/
def signed? (sign : Option Bool) (n : Nat) : Option Int :=
  match sign with
  | some true => if n ≤ Nat.pow 2 63 then some (-(n : Int)) else none
  | some false => if n < Nat.pow 2 63 then some n else none
  | none => if n < Nat.pow 2 64 then some n else none

/-- An integer with an optional sign in front of its base. -/
def integer? (t : Text) : Option Int :=
  let (sign, body) := splitSign t
  (magnitude? body).bind (signed? sign)

/-- An integer with its sign behind the mark of its base. -/
def markedInteger? (t : Text) : Option Int :=
  let (negative, body) := match t with
    | 45 :: rest => (true, rest)
    | _ => (false, t)
  let read (base : Nat) (digits : Text) : Option Int :=
    if negative then (someDigitsIn base digits).bind (signed? (some true))
    else
      let (sign, digits) := splitSign digits
      (someDigitsIn base digits).bind (signed? sign)
  match body with
  | 48 :: 98 :: digits => read 2 digits
  | 48 :: 111 :: digits => read 8 digits
  | _ => none

/-- Whether a text is a decimal number with digits on at least one side of its point, and maybe
an exponent. -/
def isDecimal (t : Text) : Bool :=
  let (_, body) := splitSign t
  let whole := body.takeWhile Text.isDigit
  let rest := body.dropWhile Text.isDigit
  let (behind, rest) := match rest with
    | 46 :: rest => (rest.takeWhile Text.isDigit, rest.dropWhile Text.isDigit)
    | _ => ([], rest)
  let ending := match rest with
    | [] => true
    | e :: rest =>
      let (_, digits) := splitSign rest
      Text.lowerByte e = Text.byte 'e' && !digits.isEmpty && digits.all Text.isDigit
  !(whole.isEmpty && behind.isEmpty) && ending

/-- A number. Underscores are ignored. -/
def number? (t : Text) : Option Scalar :=
  let t := t.filter (· ≠ Text.byte '_')
  match integer? t with
  | some n => some (.int n)
  | none =>
    match if isDecimal t then (Numeral.double? t).toOption else none with
    | some x => some (.float x)
    | none => (markedInteger? t).map .int

/-! ### Points in time -/

/-- A time of day: hours, minutes and seconds of one or two digits and maybe a fraction. Gives
the second of the day and the nanoseconds. -/
def readClock (t : Text) : Option (Nat × Nat × Text) := do
  let (hour, t) ← DateTime.readNumber? false t
  let t ← (DateTime.readMark ':' ":" t).toOption
  let (minute, t) ← DateTime.readNumber? false t
  let t ← (DateTime.readMark ':' ":" t).toOption
  let (second, t) ← DateTime.readNumber? false t
  let (nanos, t) := DateTime.readNanos t
  if 24 ≤ hour || 60 ≤ minute || 60 ≤ second then none
  else some (hour * 3600 + minute * 60 + second, nanos, t)

/-- A point in time: a date, with a time and a zone behind the letter T, or with a time and no
zone behind blanks, or alone. -/
def timestamp? (t : Text) : Option DateTime := do
  if (t.takeWhile Text.isDigit).length ≠ 4 then none
  let (year, t) ← (DateTime.readYear t).toOption
  let t ← (DateTime.readMark '-' "-" t).toOption
  let (month, t) ← DateTime.readNumber? false t
  let t ← (DateTime.readMark '-' "-" t).toOption
  let (day, t) ← DateTime.readNumber? false t
  if month = 0 || 12 < month || day = 0 || Date.daysIn month year < day then none
  let date : Date := ⟨year, month, day⟩
  match t with
  | [] => return DateTime.ofCivil date 0 0 .utc
  | c :: rest =>
    if c = Text.byte 'T' || c = Text.byte 't' then do
      let (clock, nanos, rest) ← readClock rest
      match (DateTime.readZone rest).toOption with
      | some (zone, []) => return DateTime.ofCivil date clock nanos zone
      | _ => none
    else if c = Text.byte ' ' then do
      match ← readClock (rest.dropWhile (· = Text.byte ' ')) with
      | (clock, nanos, []) => return DateTime.ofCivil date clock nanos .utc
      | _ => none
    else none

/-! ### Meanings -/

/-- What a text means without a tag. Points in time are only looked for if `timestamps`. -/
def classify (timestamps : Bool) (t : Text) : Scalar :=
  match word? t with
  | some s => s
  | none =>
    match t with
    | [] => .null
    | b :: _ =>
      if Text.isDigit b || b = Text.byte '+' || b = Text.byte '-' then
        match if timestamps then timestamp? t else none with
        | some at_ => .timestamp at_
        | none => (number? t).getD (.text t)
      else if b = Text.byte '.' then
        match Numeral.double? t with
        | .ok x => .float x
        | .error _ => .text t
      else .text t

/-- The mark of entries that are taken from another mapping. -/
def mergeMark : Text := "<<"

/-- The tag of a scalar: its own one, or what it means. -/
def effectiveTag (tag : Option Text) (plain : Bool) (t : Text) : Tag :=
  match tag.bind Tag.ofText? with
  | some tag => tag
  | none => if !plain then .text else if t = mergeMark then .merge else (classify true t).tag

/-- What a text means under a tag. Integers count as numbers of the other kind. -/
def interpret (tag : Tag) (t : Text) : Except Problem Scalar :=
  match tag with
  | .text | .binary => .ok (.text t)
  | .merge => if t = mergeMark then .ok (.text t) else .error .unsuitable
  | tag =>
    let s := classify (tag = .timestamp) t
    if s.tag = tag then .ok s
    else
      match tag, s with
      | .float, .int n =>
        if n < Nat.pow 2 63 then .ok (.float (Binary64.ofInt n)) else .error .unsuitable
      | _, _ => .error .unsuitable

end Yaml

end Reckoner
