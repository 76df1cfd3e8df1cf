import Reckoner.Yaml.Input

/-!
# How scalars are written

The text of a scalar stands plain, between quotes, or as a block of indented lines. Plain and
quoted texts can go on over several lines: a single line end is read as a blank, and each further
one as a line feed. A block keeps its lines, or folds them in a similar way.
-/

namespace Reckoner

namespace Yaml

/-! ### Gaps between words -/

/-- Blanks and line ends between two words. -/
structure Gap where
  /-- The blanks in front of the first line end. -/
  blanks : List Char := []
  /-- Whether the gap goes over the end of a line. -/
  crossed : Bool := false
  /-- The first line end; none if that was escaped. -/
  first : Option Char := none
  /-- Further line ends. -/
  others : List Char := []

namespace Gap

/-- What a gap contributes to a scalar. -/
def joined (g : Gap) : List Char :=
  if g.crossed then
    match g.first with
    | some '\n' => if g.others.isEmpty then [' '] else g.others
    | some c => c :: g.others
    | none => g.others
  else g.blanks

/-- Adds the end of a line. -/
def cross (g : Gap) (c : Char) : Gap :=
  if g.crossed then { g with others := g.others ++ [keptBreak c] }
  else { blanks := [], crossed := true, first := some (keptBreak c), others := [] }

/-- Adds a blank; those at the start of a line are dropped. -/
def blank (g : Gap) (c : Char) : Gap :=
  if g.crossed then g else { g with blanks := g.blanks ++ [c] }

/-- Reads blanks and line ends. Behind a line end a tab is refused in columns below `floor`. -/
def read (floor : Nat) : Gap → List Char → Mark → Except Fault (Gap × Input)
  | g, [], m => .ok (g, ⟨[], m⟩)
  | g, '\r' :: '\n' :: rest, m => read floor (g.cross '\n') rest (m.nextLine 2)
  | g, c :: rest, m =>
    if isBreak c then read floor (g.cross c) rest (m.nextLine 1)
    else if isBlank c then
      if g.crossed && m.column < floor && c = '\t' then .error (m.fault .tabInIndentation)
      else read floor (g.blank c) rest m.next
    else .ok (g, ⟨c :: rest, m⟩)

end Gap

/-! ### Plain scalars -/

/-- Whether a plain scalar ends in front of `c`, which `next` follows: a colon ends it at the end
of a word, and inside of brackets so do the marks of flow collections. -/
def endsPlain (flow : Bool) (c : Char) (next : Option Char) : Bool :=
  isSpace c || (c = ':' && endsWord next)
    || (flow && [',', '?', '[', ']', '\x7b', '\x7d'].contains c)

/-- Reads a word of a plain scalar. -/
def plainWord (flow : Bool) : List Char → Mark → List Char × Input
  | [], m => ([], ⟨[], m⟩)
  | c :: rest, m =>
    if endsPlain flow c rest.head? then ([], ⟨c :: rest, m⟩)
    else
      let (word, i) := plainWord flow rest m.next
      (c :: word, i)

/-- Reads the words of a plain scalar behind a gap, at most `fuel` of them. The result says
whether the end of a line was crossed behind the last word. -/
def plainWords (flow : Bool) (floor : Nat) : (fuel : Nat) → Gap → Input →
    Except Fault (List Char × Bool × Input)
  | 0, g, i => .ok ([], g.crossed, i)
  | fuel + 1, g, i =>
    if i.atDocumentMark || i.next? = some '#' then .ok ([], g.crossed, i)
    else
      match plainWord flow i.chars i.mark with
      | ([], i) => .ok ([], g.crossed, i)
      | (word, i) =>
        if !i.next?.any isSpace then .ok (g.joined ++ word, false, i)
        else do
          let (gap, i) ← Gap.read floor {} i.chars i.mark
          if !flow && i.mark.column < floor then return (g.joined ++ word, gap.crossed, i)
          let (rest, crossed, i) ← plainWords flow floor fuel gap i
          return (g.joined ++ word ++ rest, crossed, i)

/-- Reads a plain scalar. Outside of brackets it ends at a line that starts left of the column
`floor`. -/
def readPlain (flow : Bool) (floor : Nat) (i : Input) : Except Fault (List Char × Bool × Input) :=
  plainWords flow floor (i.chars.length + 1) {} i

/-! ### Quoted scalars -/

/-- The value of hexadecimal digits. -/
def hexNumber? (cs : List Char) : Option Nat :=
  cs.foldlM (fun n c => (Text.hexValue? c.toUInt8).map fun d => 16 * n + d) 0

/-- The character with a code of `width` hexadecimal digits. -/
def codedChar? (width : Nat) (cs : List Char) : Option Char :=
  let digits := cs.take width
  if digits.length < width || !digits.all (fun c => c.toNat < 128) then none
  else
    match hexNumber? digits with
    | some n =>
      if (0xd800 ≤ n && n ≤ 0xdfff) || 0x10ffff < n then none else some (Char.ofNat n)
    | none => none

/-- The character that an escape behind a backslash stands for, and how many characters the
escape has. -/
def escape? : List Char → Option (Char × Nat)
  | [] => none
  | 'x' :: rest => (codedChar? 2 rest).map (·, 3)
  | 'u' :: rest => (codedChar? 4 rest).map (·, 5)
  | 'U' :: rest => (codedChar? 8 rest).map (·, 9)
  | c :: _ =>
    (match c with
      | '0' => some 0
      | 'a' => some 7
      | 'b' => some 8
      | 't' | '\t' => some 9
      | 'n' => some 10
      | 'v' => some 11
      | 'f' => some 12
      | 'r' => some 13
      | 'e' => some 27
      | ' ' => some 32
      | '"' => some 34
      | '\'' => some 39
      | '\\' => some 92
      | 'N' => some 0x85
      | '_' => some 0xa0
      | 'L' => some 0x2028
      | 'P' => some 0x2029
      | _ => none).map fun code => (Char.ofNat code, 1)

/-- Reads a word between single quotes, where two of them stand for one, after skipping `skip`
characters. -/
def singleWord : (skip : Nat) → List Char → Mark → List Char × Input
  | _, [], m => ([], ⟨[], m⟩)
  | k + 1, _ :: rest, m => singleWord k rest m.next
  | 0, c :: rest, m =>
    let doubled := c = '\'' && rest.head? = some '\''
    if isSpace c || (c = '\'' && !doubled) then ([], ⟨c :: rest, m⟩)
    else
      let (word, i) := singleWord (if doubled then 1 else 0) rest m.next
      (c :: word, i)

/-- Reads a word between double quotes, after skipping `skip` characters. An escaped line end
ends the word, which the result says. -/
def doubleWord : (skip : Nat) → List Char → Mark → Except Fault (List Char × Bool × Input)
  | _, [], m => .ok ([], false, ⟨[], m⟩)
  | k + 1, _ :: rest, m => doubleWord k rest m.next
  | 0, c :: rest, m =>
    if isSpace c || c = '"' then .ok ([], false, ⟨c :: rest, m⟩)
    else if c ≠ '\\' then do
      let (word, r) ← doubleWord 0 rest m.next
      return (c :: word, r)
    else if rest.head?.any isBreak then .ok ([], true, (Input.newline ⟨rest, m.next⟩).2)
    else
      match escape? rest with
      | none => .error (m.fault .badEscape)
      | some (x, width) => do
        let (word, r) ← doubleWord width rest m.next
        return (x :: word, r)

/-- Reads words up to the closing quote, at most `fuel` of them. -/
def quotedWords (quote : Char) : (fuel : Nat) → Input → Except Fault (List Char × Input)
  | 0, i => .error (i.mark.fault .openQuote)
  | fuel + 1, i => do
    if i.atDocumentMark then throw (i.mark.fault .documentInQuote)
    if i.chars.isEmpty then throw (i.mark.fault .openQuote)
    let (word, escaped, i) ←
      if quote = '"' then doubleWord 0 i.chars i.mark
      else
        let (word, i) := singleWord 0 i.chars i.mark
        .ok (word, false, i)
    if i.next? = some quote then return (word, i.skip 1)
    let (gap, i) ← Gap.read 0 { crossed := escaped } i.chars i.mark
    let (rest, i) ← quotedWords quote fuel i
    return (word ++ gap.joined ++ rest, i)

/-- Reads a quoted scalar from its opening quote on. -/
def readQuoted (quote : Char) (i : Input) : Except Fault (List Char × Input) :=
  quotedWords quote (i.chars.length + 1) (i.skip 1)

/-! ### Blocks of lines -/

/-- What becomes of the line ends behind a block. -/
inductive Chomping where
  /-- None is kept. -/
  | strip
  /-- One is kept. -/
  | clip
  /-- All are kept. -/
  | keep
  deriving DecidableEq, Repr

/-- The treatment of trailing line breaks that a character of the header asks for. -/
def Chomping.ofChar? : Char → Option Chomping
  | '-' => some strip
  | '+' => some keep
  | _ => none

/-- Reads the optional mark for line ends. -/
def readChomping (i : Input) : Chomping × Input :=
  match i.next?.bind Chomping.ofChar? with
  | some c => (c, i.skip 1)
  | none => (.clip, i)

/-- Reads the optional digit for the indentation, which is not zero. -/
def readIncrement (i : Input) : Except Fault (Nat × Input) :=
  match i.next? with
  | some '0' => .error (i.mark.fault .badBlockHeader)
  | some c => .ok (if c.isDigit then (c.toNat - 48, i.skip 1) else (0, i))
  | none => .ok (0, i)

/-- Reads the marks behind the one that opens a block, in either order, and the rest of that
line. -/
def readBlockHeader (i : Input) : Except Fault (Chomping × Nat × Input) := do
  let start := i.mark
  let (chomping, increment, i) ←
    if i.next?.any Char.isDigit then do
      let (increment, i) ← readIncrement i
      let (chomping, i) := readChomping i
      pure (chomping, increment, i)
    else do
      let (chomping, i) := readChomping i
      let (increment, i) ← if chomping = .clip then pure (0, i) else readIncrement i
      pure (chomping, increment, i)
  let i := i.skipComment
  if !endsLine i.next? then throw (start.fault .badBlockHeader)
  return (chomping, increment, i.newline.2)

/-- Reads line ends and the indentation in front of a line that is not empty. The indentation
goes up to the column `indent`, or as far as the blanks do if that is zero; then the largest
column that was reached is part of the result. -/
def blockGap (indent : Nat) : (most : Nat) → List Char → Mark →
    Except Fault (List Char × Nat × Input)
  | most, [], m => .ok ([], most, ⟨[], m⟩)
  | most, '\r' :: '\n' :: rest, m => do
    let (breaks, r) ← blockGap indent most rest (m.nextLine 2)
    return ('\n' :: breaks, r)
  | most, c :: rest, m =>
    let inside := indent = 0 || m.column < indent
    if c = ' ' && inside then blockGap indent (max most (m.column + 1)) rest m.next
    else if c = '\t' && inside then .error (m.fault .tabInIndentation)
    else if isBreak c then do
      let (breaks, r) ← blockGap indent most rest (m.nextLine 1)
      return (keptBreak c :: breaks, r)
    else .ok ([], most, ⟨c :: rest, m⟩)

/-- The lines of a block, and the line ends behind the last one. -/
structure BlockLines where
  /-- The text of the lines, but for the end of the last one. -/
  content : List Char
  /-- The end of the last line. -/
  last : List Char
  /-- Line ends of empty lines behind it. -/
  empty : List Char
  /-- What follows the block. -/
  rest : Input

/-- Reads the lines of a block from column `indent` on, at most `fuel` of them. `last` and
`empty` are the line ends in front, and `blank` says whether the line before starts with a
blank: only lines that do not are folded. -/
def blockLines (folded : Bool) (indent : Nat) : (fuel : Nat) → (last empty : List Char) →
    (blank : Bool) → Input → Except Fault BlockLines
  | 0, last, empty, _, i => .ok ⟨[], last, empty, i⟩
  | fuel + 1, last, empty, blank, i =>
    if i.mark.column = indent && !i.chars.isEmpty then do
      let starts := i.next?.any isBlank
      let joint :=
        if folded && !blank && !starts && last = ['\n'] then (if empty.isEmpty then [' '] else [])
        else last
      let (line, i) := i.span fun c => !isBreak c
      let (last, i) := i.newline
      let (more, _, i) ← blockGap indent 0 i.chars i.mark
      let r ← blockLines folded indent fuel last more starts i
      return { r with content := joint ++ empty ++ line ++ r.content }
    else .ok ⟨[], last, empty, i⟩

/-- Reads a block from its mark on. `floor` is the least column of its lines unless their
indentation is given. -/
def readBlock (folded : Bool) (floor : Nat) (i : Input) : Except Fault (List Char × Input) := do
  let (chomping, increment, i) ← readBlockHeader (i.skip 1)
  let given := if increment = 0 then 0 else floor - 1 + increment
  let (empty, most, i) ← blockGap given 0 i.chars i.mark
  let indent := if given = 0 then max (max most floor) 1 else given
  let r ← blockLines folded indent (i.chars.length + 1) [] empty false i
  let tail := match chomping with
    | .strip => []
    | .clip => r.last
    | .keep => r.last ++ r.empty
  return (r.content ++ tail, r.rest)

end Yaml

end Reckoner
