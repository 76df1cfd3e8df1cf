import Reckoner.Text.Utf8
import Reckoner.Yaml.Fault

/-!
# Characters of a document

A document is read as UTF-8, or as UTF-16 behind a byte order mark. Most control characters are
refused. Lines end in a line feed, a carriage return, both in this order, a next-line character,
or a line or paragraph separator; all but the last two are read as a line feed.
-/

namespace Reckoner

namespace Yaml

/-! ### From bytes to characters -/

/-- Whether a character may occur in a document. -/
def isAllowed (code : Nat) : Bool :=
  code = 0x09 || code = 0x0a || code = 0x0d || (0x20 ≤ code && code ≤ 0x7e) || code = 0x85
    || (0xa0 ≤ code && code ≤ 0xd7ff) || (0xe000 ≤ code && code ≤ 0xfffd)
    || (0x10000 ≤ code && code ≤ 0x10ffff)

/-- The code points of units of 16 bits; nothing if a surrogate stands alone. -/
def ofUnits : List Nat → Option (List Nat)
  | [] => some []
  | u :: rest =>
    if 0xd800 ≤ u && u ≤ 0xdbff then
      match rest with
      | v :: rest =>
        if 0xdc00 ≤ v && v ≤ 0xdfff then
          (ofUnits rest).map fun codes => (0x10000 + (u - 0xd800) * 1024 + (v - 0xdc00)) :: codes
        else none
      | [] => none
    else if 0xdc00 ≤ u && u ≤ 0xdfff then none
    else (ofUnits rest).map (u :: ·)

/-- The units of 16 bits of a text, the more significant byte first if `big`. -/
def units (big : Bool) : Text → Option (List Nat)
  | [] => some []
  | [_] => none
  | a :: b :: rest =>
    let u := if big then a.toNat * 256 + b.toNat else b.toNat * 256 + a.toNat
    (units big rest).map (u :: ·)

/-- The code points of UTF-8 text. -/
def ofUtf8 (t : Text) : Option (List Nat) :=
  (Text.runes t).mapM fun
    | .char code => some code
    | .stray _ => none

/-- The code points of a document, without a byte order mark in front. -/
def codes (t : Text) : Option (List Nat) :=
  match t with
  | 0xff :: 0xfe :: rest => (units false rest).bind ofUnits
  | 0xfe :: 0xff :: rest => (units true rest).bind ofUnits
  | 0xef :: 0xbb :: 0xbf :: rest => ofUtf8 rest
  | t => ofUtf8 t

/-- The characters of a document. -/
def characters (t : Text) : Except Problem (List Char) :=
  match codes t with
  | none => .error .encoding
  | some codes =>
    if codes.all isAllowed then .ok (codes.map Char.ofNat) else .error .controlCharacter

/-- The bytes of characters. -/
def textOf (cs : List Char) : Text := cs.flatMap fun c => Text.encode c.toNat

/-! ### Classes -/

/-- Whether the character separates words within a line. -/
def isBlank (c : Char) : Bool := c = ' ' || c = '\t'

/-- The end of a line as one character. -/
def isBreak (c : Char) : Bool :=
  c = '\n' || c = '\r' || c.toNat = 0x85 || c.toNat = 0x2028 || c.toNat = 0x2029

/-- Whether the character separates words. -/
def isSpace (c : Char) : Bool := isBlank c || isBreak c

/-- Whether nothing or a blank or the end of a line follows. -/
def endsWord (next : Option Char) : Bool := next.all isSpace

/-- Whether nothing or the end of a line follows. -/
def endsLine (next : Option Char) : Bool := next.all isBreak

/-- A character of a name. -/
def isWordChar (c : Char) : Bool := c.isAlphanum || c = '_' || c = '-'

/-- What is kept of a character that ends a line. -/
def keptBreak (c : Char) : Char := if c.toNat = 0x2028 || c.toNat = 0x2029 then c else '\n'

/-! ### Positions -/

/-- A position, counted from zero. -/
structure Mark where
  /-- How many characters stand in front. -/
  index : Nat := 0
  /-- How many lines stand in front. -/
  line : Nat := 0
  /-- How many characters of the line stand in front. -/
  column : Nat := 0
  deriving DecidableEq, Repr

namespace Mark

/-- The position behind a character of the same line. -/
def next (m : Mark) : Mark := { m with index := m.index + 1, column := m.column + 1 }

/-- The position behind the end of a line of `width` characters. -/
def nextLine (m : Mark) (width : Nat) : Mark := ⟨m.index + width, m.line + 1, 0⟩

/-- A fault at the position. -/
def fault (m : Mark) (p : Problem) : Fault := ⟨m.line + 1, p⟩

end Mark

/-- What is left of a document, and where it starts. -/
structure Input where
  /-- The characters that are left. -/
  chars : List Char
  /-- Where they start. -/
  mark : Mark := {}

namespace Input

/-- The next character. -/
def next? (i : Input) : Option Char := i.chars.head?

/-- The input behind `n` characters of a line. -/
def skip (i : Input) : (n : Nat) → Input
  | 0 => i
  | n + 1 =>
    match i.chars with
    | [] => i
    | _ :: rest => skip ⟨rest, i.mark.next⟩ n

/-- Takes characters of a line for as long as they satisfy `p`. -/
def spanFrom (p : Char → Bool) : List Char → Mark → List Char × Input
  | [], m => ([], ⟨[], m⟩)
  | c :: rest, m =>
    if p c then
      let (taken, i) := spanFrom p rest m.next
      (c :: taken, i)
    else ([], ⟨c :: rest, m⟩)

/-- Takes characters of a line for as long as they satisfy `p`. -/
def span (p : Char → Bool) (i : Input) : List Char × Input := spanFrom p i.chars i.mark

/-- The input behind characters of a line that satisfy `p`. -/
def dropWhile (p : Char → Bool) (i : Input) : Input := (i.span p).2

/-- Takes the end of a line, if it stands here. -/
def newline (i : Input) : List Char × Input :=
  match i.chars with
  | '\r' :: '\n' :: rest => (['\n'], ⟨rest, i.mark.nextLine 2⟩)
  | c :: rest => if isBreak c then ([keptBreak c], ⟨rest, i.mark.nextLine 1⟩) else ([], i)
  | [] => ([], i)

/-- Whether three characters `c` stand alone at the start of a line. -/
def atLineMark (c : Char) (i : Input) : Bool :=
  i.mark.column = 0 && i.chars.take 3 = [c, c, c] && endsWord i.chars[3]?

/-- Whether a mark for the start or the end of a document stands here. -/
def atDocumentMark (i : Input) : Bool := i.atLineMark '-' || i.atLineMark '.'

/-- Skips blanks and a comment up to the end of the line. -/
def skipComment (i : Input) : Input :=
  let i := i.dropWhile isBlank
  if i.next? = some '#' then i.dropWhile fun c => !isBreak c else i

end Input

end Yaml

end Reckoner
