import Reckoner.Yaml.ScalarText

/-!
# Tokens

A document is a sequence of tokens. Indentation becomes tokens too: a block collection starts in
front of its first entry and ends at a line that stands further left. A key without a mark of its
own is only known to be one when the colon behind it is met; its token is then put in front of
what has already been read, which is why possible keys are remembered for each level of brackets.
-/

namespace Reckoner

namespace Yaml

/-- What a token means. -/
inductive TokenKind where
  /-- The start of the text. -/
  | streamStart
  /-- The end of the text. -/
  | streamEnd
  /-- The directive `%YAML`. -/
  | version (major minor : Nat)
  /-- The directive `%TAG`. -/
  | tagHandle (handle expansion : List Char)
  /-- The mark `---`. -/
  | documentStart
  /-- The mark `...`. -/
  | documentEnd
  /-- A column in which items start. -/
  | sequenceStart
  /-- A column in which keys start. -/
  | mappingStart
  /-- The end of what starts in a column. -/
  | blockEnd
  /-- An opening bracket. -/
  | flowSequenceStart
  /-- A closing bracket. -/
  | flowSequenceEnd
  /-- An opening brace. -/
  | flowMappingStart
  /-- A closing brace. -/
  | flowMappingEnd
  /-- The dash of an item. -/
  | entry
  /-- A comma. -/
  | flowEntry
  /-- The start of a key, with or without a question mark. -/
  | key
  /-- The colon of a value. -/
  | value
  /-- An asterisk with a name. -/
  | alias (name : List Char)
  /-- An ampersand with a name. -/
  | anchor (name : List Char)
  /-- An exclamation mark with a name, its handle apart. -/
  | tag (handle suffix : List Char)
  /-- A text, and whether it stands plain. -/
  | scalar (plain : Bool) (text : List Char)
  deriving DecidableEq, Repr

/-- A token and the line that it starts in, counted from one. -/
structure Token where
  kind : TokenKind
  line : Nat
  deriving DecidableEq, Repr

/-- A place that turns out to be a key if a colon follows. -/
structure PossibleKey where
  /-- Nothing else than a key can stand there. -/
  required : Bool
  /-- The number of the first token of the key. -/
  token : Nat
  /-- Where it starts. -/
  mark : Mark

/-- Whether a key that starts at `k` can still be ended at `m`: on the same line, and not too far
away. -/
def PossibleKey.reaches (k : PossibleKey) (m : Mark) : Bool :=
  k.mark.line = m.line && m.index ≤ k.mark.index + 1024

/-- The state of reading tokens. -/
structure Scan where
  /-- The text that is left. -/
  input : Input
  /-- The tokens so far. -/
  tokens : Array Token := #[]
  /-- The columns of the open block collections, innermost first. -/
  indents : List Nat := []
  /-- Whether a key without a mark may start here. -/
  keyAllowed : Bool := true
  /-- The possible key of each level of brackets, innermost first. The last one stands for the
  level outside of all brackets. -/
  keys : List (Option PossibleKey) := [none]

/-- A step of taking tokens off the text. -/
abbrev Scanning := StateT Scan (Except Fault)

namespace Scan

/-- How many brackets are open. -/
def level (s : Scan) : Nat := s.keys.length - 1

/-- Whether the input stands inside of brackets. -/
def inFlow (s : Scan) : Bool := s.level ≠ 0

/-- The least column that is inside of the innermost block collection. -/
def floor (s : Scan) : Nat :=
  match s.indents with
  | [] => 0
  | column :: _ => column + 1

/-- How deep collections can be nested. -/
def maxDepth : Nat := 10000

end Scan

namespace Scanning

/-- Stops where the text is read now. -/
def fail {α : Type} (p : Problem) : Scanning α := do throw ((← get).input.mark.fault p)

/-- Takes over a result of reading the input. -/
def result {α : Type} (r : Except Fault α) : Scanning α := StateT.lift r

/-- Goes on with another rest of the text. -/
def setInput (input : Input) : Scanning Unit := modify fun s => { s with input }

/-- Says whether the next token may start a simple key. -/
def allowKey (keyAllowed : Bool) : Scanning Unit := modify fun s => { s with keyAllowed }

/-- Appends a token that starts at a position. -/
def push (kind : TokenKind) (m : Mark) : Scanning Unit :=
  modify fun s => { s with tokens := s.tokens.push ⟨kind, m.line + 1⟩ }

/-- Puts a token in front of the one with number `n`. -/
def insert (n : Nat) (kind : TokenKind) (m : Mark) : Scanning Unit :=
  modify fun s => { s with
    tokens := (s.tokens.extract 0 n).push ⟨kind, m.line + 1⟩ ++ s.tokens.extract n s.tokens.size }

/-- Appends a token of `width` characters. -/
def take (kind : TokenKind) (width : Nat) : Scanning Unit := do
  let i := (← get).input
  setInput (i.skip width)
  push kind i.mark

/-! ### Indentation -/

/-- Opens a block collection at a column if that is further right than the innermost one. Its
token goes in front of the one with number `n`. -/
def openBlock (column n : Nat) (kind : TokenKind) (m : Mark) : Scanning Unit := do
  let s ← get
  if !s.inFlow && s.floor ≤ column then
    if Scan.maxDepth ≤ s.indents.length then fail .tooDeep
    set { s with indents := column :: s.indents }
    insert n kind m

/-- Closes the block collections for which `outside` holds of their columns. -/
def closeBlocks (outside : Nat → Bool) : Scanning Unit :=
  modify fun s =>
    if s.inFlow then s
    else
      let closed := s.indents.takeWhile outside
      let ends := closed.map fun _ => (⟨.blockEnd, s.input.mark.line + 1⟩ : Token)
      { s with indents := s.indents.drop closed.length, tokens := s.tokens ++ ends.toArray }

/-! ### Possible keys -/

/-- Changes the possible key of the innermost level. -/
def setKey (k : Option PossibleKey) : Scanning Unit :=
  modify fun s => { s with keys := k :: s.keys.drop 1 }

/-- Gives up the possible key of the innermost level. -/
def dropKey : Scanning Unit := do
  match (← get).keys.head?.join with
  | some k => if k.required then fail .missingColon else setKey none
  | none => return ()

/-- Remembers that a key can start here. -/
def saveKey : Scanning Unit := do
  let s ← get
  if s.keyAllowed then
    let m := s.input.mark
    dropKey
    setKey (some ⟨!s.inFlow && s.indents.head? = some m.column, s.tokens.size, m⟩)

/-- The possible key of the innermost level if it can be ended here. -/
def currentKey : Scanning (Option PossibleKey) := do
  let s ← get
  match s.keys.head?.join with
  | some k =>
    if k.reaches s.input.mark then return some k
    else if k.required then fail .missingColon
    else return none
  | none => return none

/-! ### Blanks and comments -/

end Scanning

/-- What is being skipped: blanks in front of a token, a comment, or blanks in front of another
comment. -/
inductive Skipping where
  /-- Blanks, in front of a token. -/
  | blanks
  /-- A comment, up to the end of its line. -/
  | comment
  /-- Blanks that another comment may follow. -/
  | between

/-- Whether a comment is the next thing behind blanks and line ends. -/
def commentFollows (cs : List Char) : Bool := (cs.dropWhile isSpace).head? = some '#'

/-- What is skipped behind a comment. -/
def Skipping.after (cs : List Char) : Skipping := if commentFollows cs then between else blanks

/-- Skips blanks, comments and line ends. Tabs are only skipped where no key can start. Outside
of brackets a key can start on every new line. The result says whether one can. -/
def skipToToken (flow : Bool) : Skipping → (keyAllowed : Bool) → List Char → Mark → Bool × Input
  | _, allowed, [], m => (allowed, ⟨[], m⟩)
  | mode, allowed, '\r' :: '\n' :: rest, m =>
    skipToToken flow (afterLine mode rest) (allowed || !flow) rest (m.nextLine 2)
  | mode, allowed, c :: rest, m =>
    if isBreak c then
      skipToToken flow (afterLine mode rest) (allowed || !flow) rest (m.nextLine 1)
    else
      match mode with
      | .comment => skipToToken flow .comment allowed rest m.next
      | .between =>
        skipToToken flow (if c = '#' then .comment else .between) allowed rest m.next
      | .blanks =>
        if c = '#' then skipToToken flow .comment allowed rest m.next
        else if c = ' ' || (c = '\t' && (flow || !allowed)) || (c.toNat = 0xfeff && m.column = 0)
        then skipToToken flow .blanks allowed rest m.next
        else (allowed, ⟨c :: rest, m⟩)
where
  /-- How skipping goes on behind the end of a line. -/
  afterLine (mode : Skipping) (rest : List Char) : Skipping :=
    match mode with
    | .comment => .after rest
    | mode => mode

/-! ### Names, tags and directives -/

/-- Characters that may follow the name of an anchor. -/
def anchorEnds : List Char := ['?', ':', ',', ']', '\x7d', '%', '@', '\x60']

/-- Reads the name of an anchor or alias from its mark on. -/
def readAnchor (i : Input) : Except Fault (List Char × Input) :=
  let start := i.mark
  let (name, i) := (i.skip 1).span isWordChar
  if name.isEmpty || !(endsWord i.next? || i.next?.any anchorEnds.contains) then
    .error (start.fault .badAnchor)
  else .ok (name, i)

/-- Characters of a tag besides those of names. -/
def tagMarks : List Char :=
  [';', '/', '?', ':', '@', '&', '=', '+', '$', ',', '.', '!', '~', '*', '\'', '(', ')', '[', ']',
    '%']

/-- The bytes that characters of a tag stand for, where a percent sign stands in front of the
two digits of one byte. -/
def tagBytes? : List Char → Option Text
  | [] => some []
  | '%' :: a :: b :: rest =>
    match codedChar? 2 [a, b] with
    | some c => (tagBytes? rest).map (c.toUInt8 :: ·)
    | none => none
  | c :: rest => if c = '%' then none else (tagBytes? rest).map (Text.encode c.toNat ++ ·)

/-- Characters of a tag with escaped ones in place of their escapes. -/
def unescapeTag? (cs : List Char) : Option (List Char) := do
  let codes ← ofUtf8 (← tagBytes? cs)
  return codes.map Char.ofNat

/-- Reads the characters of a tag behind `head`, at least one in all. -/
def readTagChars (head : List Char) (i : Input) : Except Fault (List Char × Input) :=
  let (cs, rest) := i.span fun c => isWordChar c || tagMarks.contains c
  match unescapeTag? cs with
  | some cs =>
    if head.isEmpty && cs.isEmpty then .error (i.mark.fault .badTag)
    else .ok (head.drop 1 ++ cs, rest)
  | none => .error (i.mark.fault .badTag)

/-- Reads an exclamation mark, a name and, if it is there, another exclamation mark. -/
def readHandle (i : Input) : Except Fault (List Char × Input) :=
  if i.next? = some '!' then
    let (name, i) := (i.skip 1).span isWordChar
    if i.next? = some '!' then .ok ('!' :: name ++ ['!'], i.skip 1) else .ok ('!' :: name, i)
  else .error (i.mark.fault .badTag)

/-- Reads the handle and the suffix of a tag. -/
def readTag (i : Input) : Except Fault (List Char × List Char × Input) := do
  let start := i.mark
  let (handle, suffix, i) ←
    if i.chars[1]? = some '<' then do
      let (suffix, i) ← readTagChars [] (i.skip 2)
      if i.next? ≠ some '>' then throw (start.fault .badTag)
      pure ([], suffix, i.skip 1)
    else do
      let (handle, i) ← readHandle i
      if 1 < handle.length && handle.getLast? = some '!' then do
        let (suffix, i) ← readTagChars [] i
        pure (handle, suffix, i)
      else do
        let (suffix, i) ← readTagChars handle i
        pure (if suffix.isEmpty then ([], ['!'], i) else (['!'], suffix, i))
  if !endsWord i.next? then throw (start.fault .badTag)
  return (handle, suffix, i)

/-- Reads a number of at most nine digits. -/
def readVersionNumber (i : Input) : Except Fault (Nat × Input) :=
  let (digits, rest) := i.span Char.isDigit
  if digits.isEmpty || 9 < digits.length then .error (i.mark.fault .badDirective)
  else .ok (digits.foldl (fun n d => 10 * n + (d.toNat - 48)) 0, rest)

/-- Reads a directive from its percent sign to the end of the line. -/
def readDirective (i : Input) : Except Fault (TokenKind × Input) := do
  let bad := i.mark.fault .badDirective
  let (name, i) := (i.skip 1).span isWordChar
  if name.isEmpty || !endsWord i.next? then throw bad
  let i := i.dropWhile isBlank
  let (kind, i) ←
    if name = "YAML".toList then do
      let (major, i) ← readVersionNumber i
      if i.next? ≠ some '.' then throw bad
      let (minor, i) ← readVersionNumber (i.skip 1)
      pure (TokenKind.version major minor, i)
    else if name = "TAG".toList then do
      let (handle, i) ← readHandle i
      if handle ≠ ['!'] && (handle.length < 2 || handle.getLast? ≠ some '!') then throw bad
      if !i.next?.any isBlank then throw bad
      let (expansion, i) ← readTagChars [] (i.dropWhile isBlank)
      if !endsWord i.next? then throw bad
      pure (TokenKind.tagHandle handle expansion, i)
    else throw bad
  let i := i.skipComment
  if !endsLine i.next? then throw bad
  return (kind, i.newline.2)

/-! ### The next token -/

namespace Scanning

/-- The end of the document. -/
def fetchEnd : Scanning Unit := do
  let i := (← get).input
  if i.mark.column ≠ 0 then setInput { i with mark := i.mark.nextLine 0 }
  closeBlocks fun _ => true
  dropKey
  allowKey false
  push .streamEnd (← get).input.mark

/-- A directive. -/
def fetchDirective : Scanning Unit := do
  closeBlocks fun _ => true
  dropKey
  allowKey false
  let i := (← get).input
  let (kind, rest) ← result (readDirective i)
  setInput rest
  push kind i.mark

/-- A mark for the start or end of a document. -/
def fetchDocumentMark (kind : TokenKind) : Scanning Unit := do
  closeBlocks fun _ => true
  dropKey
  allowKey false
  take kind 3

/-- An opening bracket. -/
def fetchOpening (kind : TokenKind) : Scanning Unit := do
  saveKey
  if Scan.maxDepth ≤ (← get).level then fail .tooDeep
  modify fun s => { s with keys := none :: s.keys }
  allowKey true
  take kind 1

/-- A closing bracket. -/
def fetchClosing (kind : TokenKind) : Scanning Unit := do
  dropKey
  modify fun s => { s with keys := if s.inFlow then s.keys.drop 1 else s.keys }
  allowKey false
  take kind 1

/-- A comma between brackets. -/
def fetchFlowEntry : Scanning Unit := do
  dropKey
  allowKey true
  take .flowEntry 1

/-- The mark of an entry of a block sequence. -/
def fetchEntry : Scanning Unit := do
  let s ← get
  if !s.inFlow then
    if !s.keyAllowed then fail .misplacedEntry
    openBlock s.input.mark.column s.tokens.size .sequenceStart s.input.mark
  dropKey
  allowKey true
  take .entry 1

/-- The mark of a key. A comment can follow it, even behind tabs. -/
def fetchKey : Scanning Unit := do
  let s ← get
  if !s.inFlow then
    if !s.keyAllowed then fail .misplacedKey
    openBlock s.input.mark.column s.tokens.size .mappingStart s.input.mark
  dropKey
  allowKey !s.inFlow
  take .key 1
  let i := (← get).input
  if (i.dropWhile isBlank).next? = some '#' then setInput i.skipComment

/-- The mark of a value. If a key can end here, this makes it one. -/
def fetchValue : Scanning Unit := do
  match ← currentKey with
  | some k =>
    insert k.token .key k.mark
    openBlock k.mark.column k.token .mappingStart k.mark
    setKey none
    allowKey false
  | none =>
    let s ← get
    if !s.inFlow then
      if !s.keyAllowed then fail .misplacedValue
      openBlock s.input.mark.column s.tokens.size .mappingStart s.input.mark
    allowKey !s.inFlow
  take .value 1

/-- A token that a key can start with. -/
def fetchNodePart (read : Input → Except Fault (TokenKind × Input)) : Scanning Unit := do
  saveKey
  allowKey false
  let i := (← get).input
  let (kind, rest) ← result (read i)
  setInput rest
  push kind i.mark

/-- An anchor or alias. -/
def fetchAnchor (kind : List Char → TokenKind) : Scanning Unit :=
  fetchNodePart fun i => do
    let (name, i) ← readAnchor i
    return (kind name, i)

/-- A tag. -/
def fetchTag : Scanning Unit :=
  fetchNodePart fun i => do
    let (handle, suffix, i) ← readTag i
    return (.tag handle suffix, i)

/-- A quoted scalar. -/
def fetchQuoted (quote : Char) : Scanning Unit :=
  fetchNodePart fun i => do
    let (text, i) ← readQuoted quote i
    return (.scalar false text, i)

/-- A plain scalar. A key can start behind it if it goes up to a new line. -/
def fetchPlain : Scanning Unit := do
  saveKey
  let s ← get
  let (text, crossed, rest) ← result (readPlain s.inFlow s.floor s.input)
  setInput rest
  allowKey crossed
  push (.scalar true text) s.input.mark

/-- A block of lines. -/
def fetchBlock (folded : Bool) : Scanning Unit := do
  dropKey
  allowKey true
  let s ← get
  let (text, rest) ← result (readBlock folded s.floor s.input)
  setInput rest
  push (.scalar false text) s.input.mark

end Scanning

/-- Characters that no plain scalar starts with, unless as one of the exceptions below. -/
def indicators : List Char :=
  ['-', '?', ':', ',', '[', ']', '\x7b', '\x7d', '#', '&', '*', '!', '|', '>', '\'', '"', '%', '@',
    '\x60']

/-- Whether a plain scalar starts with `c`, which `next` follows. -/
def startsPlain (flow : Bool) (c : Char) (next : Option Char) : Bool :=
  !(isSpace c || indicators.contains c) || (c = '-' && !next.any isBlank)
    || (!flow && (c = '?' || c = ':') && !endsWord next)

namespace Scanning

/-- The token that starts with `c`. -/
def fetchFrom (c : Char) : Scanning Unit := do
  let s ← get
  let next := s.input.chars[1]?
  let isMark := s.inFlow || endsWord next
  match c with
  | '[' => fetchOpening .flowSequenceStart
  | '\x7b' => fetchOpening .flowMappingStart
  | ']' => fetchClosing .flowSequenceEnd
  | '\x7d' => fetchClosing .flowMappingEnd
  | ',' => fetchFlowEntry
  | '*' => fetchAnchor .alias
  | '&' => fetchAnchor .anchor
  | '!' => fetchTag
  | '\'' | '"' => fetchQuoted c
  | _ =>
    if c = '-' && endsWord next then fetchEntry
    else if c = '?' && isMark then fetchKey
    else if c = ':' && isMark then fetchValue
    else if (c = '|' || c = '>') && !s.inFlow then fetchBlock (c = '>')
    else if startsPlain s.inFlow c next then fetchPlain
    else fail .strayCharacter

/-- Reads the next token, with the tokens for the indentation in front of it. -/
def fetch : Scanning Unit := do
  let s ← get
  let (allowed, i) := skipToToken s.inFlow .blanks s.keyAllowed s.input.chars s.input.mark
  set { s with keyAllowed := allowed, input := i }
  closeBlocks fun column => i.mark.column < column
  match i.chars with
  | [] => fetchEnd
  | c :: _ =>
    if i.mark.column = 0 && c = '%' then fetchDirective
    else if i.atLineMark '-' then fetchDocumentMark .documentStart
    else if i.atLineMark '.' then fetchDocumentMark .documentEnd
    else fetchFrom c

end Scanning

/-- The tokens of a document as far as they can be read, and what keeps the rest from it. -/
structure Tokens where
  /-- The tokens that could be read. -/
  list : List Token
  /-- Why there are no more. -/
  fault : Option Fault

namespace Scan

/-- How many tokens count as read if the next one cannot be: two tokens behind each one have to
be there, and whatever can still become a key is undecided. -/
def settled (s : Scan) : Nat :=
  s.keys.foldl (fun n k =>
    match k with
    | some k => if k.required || k.reaches s.input.mark then min n k.token else n
    | none => n) (s.tokens.size - 2)

/-- Reads up to `fuel` further tokens. -/
def run : (fuel : Nat) → Scan → Tokens
  | 0, s => ⟨s.tokens.toList.take s.settled, some (s.input.mark.fault .strayCharacter)⟩
  | fuel + 1, s =>
    match Scanning.fetch.run s with
    | .error f => ⟨s.tokens.toList.take s.settled, some f⟩
    | .ok (_, t) =>
      if t.tokens.back?.any fun token => token.kind = .streamEnd then ⟨t.tokens.toList, none⟩
      else run fuel t

end Scan

/-- The tokens of a document. -/
def Tokens.ofChars (cs : List Char) : Tokens :=
  Scan.run (cs.length + 1) { input := ⟨cs, {}⟩, tokens := #[⟨.streamStart, 1⟩] }

end Yaml

end Reckoner
