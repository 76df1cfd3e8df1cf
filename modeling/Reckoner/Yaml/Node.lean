import Reckoner.Yaml.Token

/-!
# Nodes

A document is a tree of scalars, sequences and mappings. A node can carry an anchor, and an alias
stands for the last node before it with that anchor. Since an anchor counts from the start of its
node on, an alias can stand for a node that it is itself part of, so a document is a graph: an
alias holds the number of an anchor, and the nodes with anchors are kept beside the tree.
-/

namespace Reckoner

namespace Yaml

/-- The number of an anchor, counted from the start of the document. -/
abbrev AnchorId := Nat

/-- A node and the line that it starts in, where that is ever asked for. -/
inductive Node where
  /-- A scalar with its tag, whether it stands plain, and its text. -/
  | scalar (line : Nat) (tag : Option Text) (plain : Bool) (text : Text)
  /-- Items in order. -/
  | sequence (items : List Node)
  /-- Keys with their values, in order. -/
  | mapping (line : Nat) (entries : List (Node × Node))
  /-- A name that stands for a node with an anchor. -/
  | alias (name : Text) (anchor : AnchorId)
  deriving Inhabited, Repr

/-- A document: its outermost node, and the nodes that have anchors. -/
structure Document where
  /-- The outermost node. -/
  root : Node
  /-- The nodes with anchors, by the numbers of these. -/
  anchors : List (AnchorId × Node)

/-- The node of an anchor. -/
def Document.anchored? (d : Document) (a : AnchorId) : Option Node := d.anchors.lookup a

/-! ### From tokens to nodes -/

/-- The state of building nodes. -/
structure Build where
  /-- The tokens that are left. -/
  tokens : List Token
  /-- Why there are no more tokens. -/
  fault : Fault
  /-- What the handles of tags stand for. -/
  handles : List (List Char × List Char) := []
  /-- The anchors in force, by name. -/
  names : List (Text × AnchorId) := []
  /-- Finished nodes with anchors. -/
  anchors : List (AnchorId × Node) := []
  /-- How many anchors there have been. -/
  count : Nat := 0

/-- A step of building nodes from the tokens that are left. -/
abbrev Building := StateT Build (Except Fault)

namespace Building

/-- The next token. -/
def peek : Building Token := do
  let b ← get
  match b.tokens with
  | t :: _ => return t
  | [] => throw b.fault

/-- Drops the next token. -/
def drop : Building Unit := modify fun b => { b with tokens := b.tokens.drop 1 }

/-- Stops at the line of the next token. -/
def fail {α : Type} (p : Problem) : Building α := do throw ⟨(← peek).line, p⟩

/-- A node that is not written at all. -/
def emptyScalar (line : Nat) : Node := .scalar line none true []

/-- The handles that every document has. -/
def usualHandles : List (List Char × List Char) :=
  [(['!'], ['!']), (['!', '!'], "tag:yaml.org,2002:".toList)]

/-- The tag that a handle and a suffix stand for. -/
def expandTag (handle suffix : List Char) : Building Text := do
  if handle.isEmpty then return textOf suffix
  match ((← get).handles ++ usualHandles).lookup handle with
  | some expansion =>
    if expansion.isEmpty && suffix.isEmpty then fail .undefinedHandle
    else return textOf (expansion ++ suffix)
  | none => fail .undefinedHandle

/-- Gives a number to an anchor. -/
def bindAnchor (name : Text) : Building AnchorId := do
  let b ← get
  set { b with names := (name, b.count) :: b.names, count := b.count + 1 }
  return b.count

/-- The properties in front of a node. -/
structure Properties where
  /-- The name that aliases use for the node. -/
  anchor : Option Text := none
  /-- The tag that says what the node is. -/
  tag : Option Text := none

/-- Reads an anchor, if one is next. -/
def anchor? : Building (Option Text) := do
  match (← peek).kind with
  | .anchor name => drop; return some (textOf name)
  | _ => return none

/-- Reads a tag, if one is next. -/
def tag? : Building (Option (List Char × List Char)) := do
  match (← peek).kind with
  | .tag handle suffix => drop; return some (handle, suffix)
  | _ => return none

/-- Reads an anchor and a tag in either order. -/
def properties : Building Properties := do
  let first ← anchor?
  let tag ← tag?
  let anchor ← if first.isSome then pure first else if tag.isSome then anchor? else pure none
  let tag ← match tag with
    | some (handle, suffix) => some <$> expandTag handle suffix
    | none => pure none
  return { anchor, tag }

/-- Finishes a node: its anchor, if it has one, is bound before its parts are read. -/
def finish (anchor : Option Text) (read : Building Node) : Building Node := do
  match anchor with
  | none => read
  | some name =>
    let id ← bindAnchor name
    let n ← read
    modify fun b => { b with anchors := (id, n) :: b.anchors }
    return n

/-- Whether a token ends an entry of a block mapping, so that what was expected is empty. -/
def endsBlockPart : TokenKind → Bool
  | .key | .value | .blockEnd => true
  | _ => false

mutual

/-- Reads a node, to a depth of `fuel`. Block collections are only allowed outside of brackets,
and a sequence without indentation of its own only as a part of a block mapping. -/
def node : (fuel : Nat) → (block unindented : Bool) → Building Node
  | 0, _, _ => fail .tooDeep
  | fuel + 1, block, unindented => do
    let start ← peek
    match start.kind with
    | .alias name =>
      match (← get).names.lookup (textOf name) with
      | some id => drop; return .alias (textOf name) id
      | none => fail .unknownAnchor
    | _ =>
      let p ← properties
      finish p.anchor do
        match (← peek).kind with
        | .scalar plain text => drop; return .scalar start.line p.tag plain (textOf text)
        | .flowSequenceStart => drop; return .sequence (← flowItems fuel true)
        | .flowMappingStart => drop; return .mapping start.line (← flowEntries fuel true)
        | kind =>
          if unindented && kind = .entry then return .sequence (← unindentedItems fuel)
          else if block && kind = .sequenceStart then drop; return .sequence (← blockItems fuel)
          else if block && kind = .mappingStart then
            drop
            return .mapping start.line (← blockEntries fuel)
          else if p.anchor.isSome || p.tag.isSome then return .scalar start.line p.tag true []
          else fail .noContent

/-- Reads the items of a block sequence to its end. -/
def blockItems : (fuel : Nat) → Building (List Node)
  | 0 => fail .tooDeep
  | fuel + 1 => do
    let t ← peek
    match t.kind with
    | .entry =>
      drop
      let kind := (← peek).kind
      let item ← if kind = .entry || kind = .blockEnd then pure (emptyScalar t.line)
        else node fuel true false
      return item :: (← blockItems fuel)
    | .blockEnd => drop; return []
    | _ => fail (.expected "'-' indicator")

/-- Reads the items of a sequence that stands in the column of the keys around it. -/
def unindentedItems : (fuel : Nat) → Building (List Node)
  | 0 => fail .tooDeep
  | fuel + 1 => do
    let t ← peek
    match t.kind with
    | .entry =>
      drop
      let kind := (← peek).kind
      let item ← if kind = .entry || endsBlockPart kind then pure (emptyScalar t.line)
        else node fuel true false
      return item :: (← unindentedItems fuel)
    | _ => return []

/-- Reads the entries of a block mapping to its end. -/
def blockEntries : (fuel : Nat) → Building (List (Node × Node))
  | 0 => fail .tooDeep
  | fuel + 1 => do
    let t ← peek
    match t.kind with
    | .key =>
      drop
      let key ← if endsBlockPart (← peek).kind then pure (emptyScalar t.line)
        else node fuel true true
      let v ← peek
      let value ←
        if v.kind = .value then do
          drop
          if endsBlockPart (← peek).kind then pure (emptyScalar v.line) else node fuel true true
        else pure (emptyScalar v.line)
      return (key, value) :: (← blockEntries fuel)
    | .blockEnd => drop; return []
    | _ => fail (.expected "key")

/-- Reads the items of a sequence between brackets to its end; `first` if none has been read. -/
def flowItems : (fuel : Nat) → (first : Bool) → Building (List Node)
  | 0, _ => fail .tooDeep
  | fuel + 1, first => do
    if (← peek).kind = .flowSequenceEnd then drop; return []
    if !first then
      if (← peek).kind ≠ .flowEntry then fail (.expected "',' or ']'")
      drop
    let t ← peek
    match t.kind with
    | .flowSequenceEnd => drop; return []
    | .key =>
      drop
      let entry ← flowPair fuel
      return .mapping t.line [entry] :: (← flowItems fuel false)
    | _ =>
      let item ← node fuel false false
      return item :: (← flowItems fuel false)

/-- Reads a key and a value that stand alone as an item between brackets. Where the key should
be, a token that ends it is dropped. -/
def flowPair : (fuel : Nat) → Building (Node × Node)
  | 0 => fail .tooDeep
  | fuel + 1 => do
    let k ← peek
    let key ←
      if k.kind = .value || k.kind = .flowEntry || k.kind = .flowSequenceEnd then do
        drop
        pure (emptyScalar k.line)
      else node fuel false false
    let value ← flowValue fuel .flowSequenceEnd
    return (key, value)

/-- Reads the value of an entry between brackets, which `closing` ends. -/
def flowValue : (fuel : Nat) → (closing : TokenKind) → Building Node
  | 0, _ => fail .tooDeep
  | fuel + 1, closing => do
    let v ← peek
    if v.kind ≠ .value then return emptyScalar v.line
    drop
    let t ← peek
    if t.kind = .flowEntry || t.kind = closing then return emptyScalar t.line
    node fuel false false

/-- Reads the entries of a mapping between braces to its end; `first` if none has been read. -/
def flowEntries : (fuel : Nat) → (first : Bool) → Building (List (Node × Node))
  | 0, _ => fail .tooDeep
  | fuel + 1, first => do
    if (← peek).kind = .flowMappingEnd then drop; return []
    if !first then
      if (← peek).kind ≠ .flowEntry then fail (.expected "',' or closing brace")
      drop
    match (← peek).kind with
    | .flowMappingEnd => drop; return []
    | .key =>
      drop
      let k ← peek
      let key ←
        if k.kind = .value || k.kind = .flowEntry || k.kind = .flowMappingEnd then
          pure (emptyScalar k.line)
        else node fuel false false
      let value ← flowValue fuel .flowMappingEnd
      return (key, value) :: (← flowEntries fuel false)
    | _ =>
      let key ← node fuel false false
      let value := emptyScalar (← peek).line
      return (key, value) :: (← flowEntries fuel false)

end

/-! ### Documents -/

/-- Reads directives. There is at most one for the version, which is 1.1, and one for each
handle. -/
def directives : (fuel : Nat) → (versioned : Bool) → Building Unit
  | 0, _ => return ()
  | fuel + 1, versioned => do
    match (← peek).kind with
    | .version major minor =>
      if versioned || major ≠ 1 || minor ≠ 1 then fail .badDirective
      drop
      directives fuel true
    | .tagHandle handle expansion =>
      let b ← get
      if (b.handles.lookup handle).isSome then fail .badDirective
      set { b with handles := b.handles ++ [(handle, expansion)] }
      drop
      directives fuel versioned
    | _ => return ()

/-- Whether a token starts or ends a document. -/
def isDocumentMark : TokenKind → Bool
  | .version _ _ | .tagHandle _ _ | .documentStart | .documentEnd | .streamEnd => true
  | _ => false

/-- Reads the outermost node of the first document; nothing if there is no document. -/
def rootNode (fuel : Nat) : Building (Option Node) := do
  drop
  match (← peek).kind with
  | .streamEnd => return none
  | .version _ _ | .tagHandle _ _ | .documentStart =>
    directives fuel false
    if (← peek).kind ≠ .documentStart then fail (.expected "<document start>")
    drop
    let t ← peek
    if isDocumentMark t.kind then return some (emptyScalar t.line)
    else return some (← node fuel true false)
  | _ => return some (← node fuel true false)

/-- Reads the first document. What follows it is not looked at. -/
def document (fuel : Nat) : Building (Option Document) := do
  match ← rootNode fuel with
  | none => return none
  | some root =>
    let _ ← peek
    return some ⟨root, (← get).anchors⟩

end Building

/-- The first document of a text, if there is one. -/
def Document.read (t : Text) : Except Fault (Option Document) :=
  match characters t with
  | .error p => .error ⟨1, p⟩
  | .ok cs =>
    let tokens := Tokens.ofChars cs
    let fault := tokens.fault.getD ⟨1, .expected "more input"⟩
    ((Building.document (2 * tokens.list.length + 4)).run { tokens := tokens.list, fault }).map
      (·.1)

end Yaml

end Reckoner
