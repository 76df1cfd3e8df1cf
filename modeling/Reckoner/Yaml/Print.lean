import Reckoner.Text.Base64
import Reckoner.Yaml.Scalar

/-!
# Writing documents

Records of texts and numbers as block mappings. A text stands plain where it is read back as the
same string, between single quotes where marks in it would be misread, between double quotes
where it has to be escaped or means something else when plain, and as a block if it has several
lines. Bytes that are no text are written in base 64.
-/

namespace Reckoner

namespace Yaml

/-- How a text is written. -/
inductive Style where
  /-- As it is. -/
  | plain
  /-- Between single quotes. -/
  | single
  /-- Between double quotes, with escapes. -/
  | double
  /-- As a block of lines. -/
  | lines
  deriving DecidableEq, Repr

/-- Whether a character can be written as it is. -/
def isPlainChar (c : Char) : Bool :=
  let n := c.toNat
  n = 0x0a || (0x20 ≤ n && n ≤ 0x7e) || (0xa0 ≤ n && n ≤ 0xd7ff)
    || (0xe000 ≤ n && n ≤ 0xfffd && n ≠ 0xfeff)

/-- Whether a character that satisfies `p` is followed by one that satisfies `q`. -/
def adjacent (p q : Char → Bool) : List Char → Bool
  | a :: b :: rest => (p a && q b) || adjacent p q (b :: rest)
  | _ => false

/-- Whether blanks would get lost at the end of a line. -/
def hasBlankBeforeBreak (cs : List Char) : Bool := adjacent (· = ' ') isBreak cs

/-- Whether blanks would get lost at the start of a line. -/
def hasBlankAfterBreak (cs : List Char) : Bool := adjacent isBreak (· = ' ') cs

/-- Whether some character has to be escaped. -/
def hasSpecial (cs : List Char) : Bool := cs.any fun c => !isPlainChar c && c ≠ '\t'

/-- Whether the start of a text would be read as a mark. -/
def startsWithMark (cs : List Char) : Bool :=
  cs.take 3 = ['-', '-', '-'] || cs.take 3 = ['.', '.', '.']
    || match cs with
      | [] => false
      | c :: rest =>
        ['#', ',', '[', ']', '\x7b', '\x7d', '&', '*', '!', '|', '>', '\'', '"', '%', '@',
            '\x60'].contains c
          || (['?', ':', '-'].contains c && rest.head?.all isBlank)

/-- Whether a colon or a number sign inside of a text would be read as a mark. -/
def containsMark (cs : List Char) : Bool :=
  adjacent (· = ':') isBlank cs || cs.getLast? = some ':' || adjacent isSpace (· = '#') cs

/-- Whether a text can stand between single quotes. -/
def singleAllowed (cs : List Char) : Bool :=
  !(hasBlankAfterBreak cs || hasBlankBeforeBreak cs || cs.contains '\t' || hasSpecial cs)

/-- Whether a text can stand plain. -/
def plainAllowed (cs : List Char) : Bool :=
  singleAllowed cs && !cs.any isBreak && cs.head? ≠ some ' ' && cs.getLast? ≠ some ' '
    && !startsWithMark cs && !containsMark cs

/-- Whether a text can stand as a block of lines. -/
def linesAllowed (cs : List Char) : Bool :=
  !(cs.getLast? = some ' ' || hasBlankBeforeBreak cs || hasSpecial cs)

/-- Whether a text looks like a number of hours, minutes and seconds, which other readers take as
one number. -/
def isSexagesimal (t : Text) : Bool :=
  let (_, body) := splitSign t
  let isPart (p : Text) : Bool :=
    match p with
    | [a] => Text.isDigit a
    | [a, b] => 48 ≤ a && a ≤ 53 && Text.isDigit b
    | _ => false
  match Text.splitAtByte (Text.byte ':') body with
  | first :: second :: more =>
    let parts := second :: more
    let last := parts.getLast?.getD []
    let whole := last.takeWhile (· ≠ Text.byte '.')
    let fraction := (last.dropWhile (· ≠ Text.byte '.')).drop 1
    let digitsOnly (p : Text) : Bool := p.all fun b => Text.isDigit b || b = Text.byte '_'
    first.head?.any Text.isDigit && digitsOnly first && parts.dropLast.all isPart && isPart whole
      && digitsOnly fraction
  | _ => false

/-- Whether other readers take a word as a truth value. -/
def isOldBool (t : Text) : Bool :=
  isOneOf ["y", "Y", "yes", "Yes", "YES", "on", "On", "ON", "n", "N", "no", "No", "NO", "off",
    "Off", "OFF"] t

/-- Whether a text is read back as a string if it stands plain. -/
def readsAsText (t : Text) : Bool :=
  (classify true t).tag = .text && !isSexagesimal t && !isOldBool t

/-- How a text is written. -/
def styleOf (isText : Bool) (cs : List Char) : Style :=
  if cs.contains '\n' then if linesAllowed cs then .lines else .double
  else if !isText then .double
  else if plainAllowed cs then .plain
  else if singleAllowed cs then .single
  else .double

/-! ### The styles -/

/-- The letter of a short escape. -/
def escapeLetter? (code : Nat) : Option Char :=
  match code with
  | 0 => some '0'
  | 7 => some 'a'
  | 8 => some 'b'
  | 9 => some 't'
  | 10 => some 'n'
  | 11 => some 'v'
  | 12 => some 'f'
  | 13 => some 'r'
  | 27 => some 'e'
  | 34 => some '"'
  | 92 => some '\\'
  | 0x85 => some 'N'
  | 0x2028 => some 'L'
  | 0x2029 => some 'P'
  | _ => none

/-- Hexadecimal digits in upper case. -/
def upperHex (width n : Nat) : List Char :=
  (Text.ofHex width n).map fun b => (Char.ofNat b.toNat).toUpper

/-- A character between double quotes. -/
def escaped (c : Char) : List Char :=
  let n := c.toNat
  if isPlainChar c && !isBreak c && c ≠ '"' && c ≠ '\\' then [c]
  else '\\' :: match escapeLetter? n with
    | some l => [l]
    | none =>
      if n ≤ 0xff then 'x' :: upperHex 2 n
      else if n ≤ 0xffff then 'u' :: upperHex 4 n
      else 'U' :: upperHex 8 n

/-- The characters of a text where each line behind a line end starts with `indent` blanks. -/
def indented (indent : Nat) : (lineStart : Bool) → List Char → List Char
  | _, [] => []
  | lineStart, c :: rest =>
    if isBreak c then c :: indented indent true rest
    else (if lineStart then List.replicate indent ' ' else []) ++ c :: indented indent false rest

/-- The marks of a block of lines: a digit if its indentation cannot be seen, and what becomes of
the line ends behind it. -/
def blockMarks (cs : List Char) : List Char :=
  let digit := if cs.head?.any fun c => c = ' ' || isBreak c then ['4'] else []
  let chomping := match cs.reverse with
    | [] => ['-']
    | [c] => if isBreak c then ['+'] else ['-']
    | c :: d :: _ => if !isBreak c then ['-'] else if isBreak d then ['+'] else []
  '|' :: digit ++ chomping

/-- A text in a style, whose further lines start with `indent` blanks. A block that starts with a
line end goes on in its first line. -/
def inStyle (indent : Nat) (cs : List Char) : Style → List Char
  | .plain => cs
  | .single =>
    '\'' :: indented indent false (cs.flatMap fun c => if c = '\'' then ['\'', '\''] else [c])
      ++ ['\'']
  | .double => '"' :: cs.flatMap escaped ++ ['"']
  | .lines =>
    let header := blockMarks cs
    if cs.head?.any isBreak then header ++ indented indent true cs
    else header ++ '\n' :: indented indent true cs

/-- A text as a scalar. -/
def printText (indent : Nat) (t : Text) : Text :=
  match ofUtf8 t with
  | some codes =>
    let cs := codes.map Char.ofNat
    textOf (inStyle indent cs (styleOf (readsAsText t) cs))
  | none =>
    let cs := (Base64.encodeLines t).map fun b => Char.ofNat b.toNat
    "!!binary " ++ textOf (inStyle indent cs (styleOf true cs))

/-! ### Records -/

/-- What can be written: texts, numbers, and records of these. -/
inductive Content where
  /-- A text, in the style that it needs. -/
  | text (t : Text)
  /-- A number in decimal. -/
  | number (n : Nat)
  /-- Names with their contents, in order. -/
  | record (fields : List (Text × Content))

/-- The blanks that each level is indented by. -/
def indentation : Nat := 4

/-- So many blanks. -/
def blanks (n : Nat) : Text := List.replicate n 32

/-- Ends a line unless it is ended already. -/
def endLine (t : Text) : Text := if t.getLast? = some 10 then t else t ++ [10]

mutual

/-- The lines of a field. -/
def printField (margin : Nat) (name : Text) : Content → Text
  | .text t => endLine (blanks margin ++ name ++ ": " ++ printText (margin + indentation) t)
  | .number n => blanks margin ++ name ++ ": " ++ Text.ofNat n ++ "\n"
  | .record fields => blanks margin ++ name ++ ":\n" ++ printFields (margin + indentation) fields

/-- The lines of fields. -/
def printFields (margin : Nat) : List (Text × Content) → Text
  | [] => []
  | (name, c) :: rest => printField margin name c ++ printFields margin rest

end

end Yaml

end Reckoner
