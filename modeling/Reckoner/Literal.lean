import Reckoner.Value.Sequence
import Reckoner.Yaml.Record

/-!
# Literals

A literal is a value written as a YAML document. Scalars are integers, reals, truth values, points
in time or strings; a sequence is an array if its items share a kind and a list otherwise; and a
mapping is a point if it has just the keys `x` and `y`. The first node that is no value decides
about the error.

An alias is decoded as the node that it stands for. Since that can be a node around the alias,
decoding need not end: `decodeWithin` follows a bounded number of aliases inside of each other,
and gives nothing if there are more. As many as there are anchors are enough for every document
that has a value.
-/

namespace Reckoner

namespace Literal

open Yaml (Node Document AnchorId)

/-- The result of decoding; nothing if that does not end. -/
abbrev Decoding (α : Type) := ExceptT Error Option α

/-- Decoding that does not end. -/
def endless {α : Type} : Decoding α := ExceptT.mk none

/-- A result of decoding that has ended. -/
def result {α : Type} (r : Except Error α) : Decoding α := ExceptT.mk (some r)

/-- The error for a node on a line, counted from one. -/
def atLine (line : Nat) (message : Text) : Error :=
  .other ("line " ++ Text.ofNat line ++ ": " ++ message)

/-- The error for a document with a problem on a line. -/
def unreadable (line : Nat) (p : Yaml.Problem) : Error := .other (Yaml.Fault.message ⟨line, p⟩)

/-- The value of a scalar. Tags without a value of their own make strings. -/
def scalar (line : Nat) (tag : Option Text) (plain : Bool) (t : Text) : Except Error Value :=
  let read (tag : Yaml.Tag) : Except Error Value :=
    match Yaml.interpret tag t with
    | .error p => .error (unreadable line p)
    | .ok (.int n) =>
      if n < Nat.pow 2 63 then .ok (.int (Int64.ofInt n)) else .error (unreadable line .unsuitable)
    | .ok (.float x) => .ok (.real x)
    | .ok (.bool b) => .ok (.bool b)
    | .ok (.timestamp at_) => .ok (.dateTime at_)
    | .ok _ => .error (unreadable line .unsuitable)
  match Yaml.effectiveTag tag plain t with
  | .null => .error (atLine line "null is not a value")
  | .int => read .int
  | .float => read .float
  | .bool => read .bool
  | .timestamp => read .timestamp
  | _ => .ok (.text t)

/-- The error for a mapping that is no point. -/
def noPoint (line : Nat) : Error := atLine line "only points \x7bx: X, y: Y\x7d are mappings"

/-- The coordinates that fields give, the last one of each name. -/
def coordinates (d : Document) : List (Text × Node) → Option Binary64 × Option Binary64 →
    Except Yaml.Problem (Option Binary64 × Option Binary64)
  | [], p => .ok p
  | (name, n) :: rest, (x, y) => do
    if name = Text.ofString "x" then coordinates d rest (← d.real? n, y)
    else if name = Text.ofString "y" then coordinates d rest (x, ← d.real? n)
    else coordinates d rest (x, y)

/-- The point of a mapping. -/
def point (d : Document) (line : Nat) (entries : List (Node × Node)) : Except Error Value :=
  if entries.length ≠ 2 then .error (noPoint line)
  else
    match d.fields ["x", "y"] entries >>= fun fs => coordinates d fs (none, none) with
    | .error p => .error (unreadable line p)
    | .ok (some x, some y) => .ok (.point ⟨x, y⟩)
    | .ok _ => .error (noPoint line)

/-- The sequence of decoded items: what can be an array is one, and the rest are lists. -/
def sequence (items : List Value) : Value :=
  match Value.arrayOf (items.map some) with
  | .ok a => a
  | .error _ => .list items

mutual

/-- Decodes a node, where `follow` decodes what an alias stands for. -/
def decodeNode (d : Document) (follow : AnchorId → Decoding Value) : Node → Decoding Value
  | .scalar line tag plain t => result (scalar line tag plain t)
  | .sequence items => return sequence (← decodeNodes d follow items)
  | .mapping line entries => result (point d line entries)
  | .alias _ a => follow a

/-- Decodes nodes from the first to the last. -/
def decodeNodes (d : Document) (follow : AnchorId → Decoding Value) :
    List Node → Decoding (List Value)
  | [] => return []
  | n :: rest => return (← decodeNode d follow n) :: (← decodeNodes d follow rest)

end

/-- Decodes a node, following at most `fuel` aliases inside of each other. -/
def decodeWithin (d : Document) : (fuel : Nat) → Node → Decoding Value
  | 0, n => decodeNode d (fun _ => endless) n
  | fuel + 1, n =>
    decodeNode d (fun a =>
      match d.anchored? a with
      | some target => decodeWithin d fuel target
      | none => endless) n

/-- Decodes a document. -/
def decode (d : Document) : Decoding Value := decodeWithin d d.anchors.length d.root

/-- The value of a literal. A literal that contains itself has none. -/
def parse (t : Text) : Except Error Value :=
  let refused : Text := "invalid literal " ++ Text.quote t
  match Document.read t with
  | .error f => .error (.during refused (.other f.message))
  | .ok none => .error (.other refused)
  | .ok (some d) => (decode d).run.getD (.error (.fault none))

end Literal

end Reckoner
