import Reckoner.Text.Base64
import Reckoner.Yaml.Scalar

/-!
# Records in documents

How a mapping is read as a record with named fields, and scalars as what a field holds. Keys are
texts, of which none stands twice; entries with other names than those of the fields are ignored,
and so is a null. The entry `<<` adds the entries of another mapping, or of several, that are
not there already.
-/

namespace Reckoner

namespace Yaml

/-- The problem that a node is not of the kind that is asked for. -/
def unsuitable {α : Type} : Except Problem α := .error .unsuitable

namespace Document

/-- The node that an alias stands for; any other node stands for itself. -/
def target (d : Document) : Node → Node
  | .alias name a => (d.anchored? a).getD (.alias name a)
  | n => n

/-- What a scalar means under its tag, which is given too; nothing for other nodes. -/
def scalar? (d : Document) (n : Node) : Option (Except Problem (Tag × Scalar)) :=
  match d.target n with
  | .scalar _ tag plain t =>
    let tag := effectiveTag tag plain t
    some ((interpret tag t).map fun s => (tag, s))
  | _ => none

/-- A node as a number; nothing for a null. -/
def real? (d : Document) (n : Node) : Except Problem (Option Binary64) := do
  match d.scalar? n with
  | none => unsuitable
  | some r =>
    match (← r).2 with
    | .null => return none
    | .int n => return some (Binary64.ofInt n)
    | .float x => return some x
    | _ => unsuitable

/-- The whole part of a number in 64 bits without a sign, modulo `2 ^ 64`. -/
def wholePart (x : Binary64) : Nat :=
  let bound := Binary64.ofInt (Nat.pow 2 63)
  if x.lt bound then x.truncate.toUInt64.toNat
  else ((x.sub bound).truncate.toUInt64 + 0x8000000000000000).toNat

/-- A node as a natural number of 64 bits; nothing for a null. Of other numbers the whole part
counts. -/
def natural? (d : Document) (n : Node) : Except Problem (Option Nat) := do
  match d.scalar? n with
  | none => unsuitable
  | some r =>
    match (← r).2 with
    | .null => return none
    | .int n => if 0 ≤ n then return some n.toNat else unsuitable
    | .float x =>
      if x.isNaN || (Binary64.ofInt (Nat.pow 2 64)).lt x then unsuitable
      else return some (wholePart x)
    | _ => unsuitable

/-- A node as a text; nothing for a null. Whatever else a scalar means, its text counts; binary
data is decoded. -/
def text? (d : Document) (n : Node) : Except Problem (Option Text) := do
  match d.target n, d.scalar? n with
  | .scalar _ _ _ t, some r =>
    match ← r with
    | (_, .null) => return none
    | (.binary, _) =>
      match Base64.decode? t with
      | some bytes => return some bytes
      | none => throw .badBase64
    | _ => return some t
  | _, _ => unsuitable

/-- Whether two keys are written the same way. -/
def sameKey : Node → Node → Bool
  | .scalar _ _ _ t, .scalar _ _ _ u => t = u
  | .alias m _, .alias n _ => m = n
  | .sequence _, .sequence _ => true
  | .mapping _ _, .mapping _ _ => true
  | _, _ => false

/-- Whether some key stands twice. -/
def hasDuplicate : List (Node × Node) → Bool
  | [] => false
  | (k, _) :: rest => rest.any (fun (l, _) => sameKey k l) || hasDuplicate rest

/-- Whether a key asks for the entries of other mappings. -/
def isMergeKey : Node → Bool
  | .scalar _ tag plain t => t = mergeMark && effectiveTag tag plain t = .merge
  | _ => false

/-- The fields that have been found, and all names of entries. -/
structure Found where
  /-- The nodes of the known names. -/
  fields : List (Text × Node) := []
  /-- The names of all entries, also of those that are no fields. -/
  names : List Text := []

/-- Adds the entries of one mapping. If it is `merged` into another, entries with names that are
there already are left out; otherwise a field that stands twice, in different spellings, is a
fault. -/
def addEntries (d : Document) (known : List Text) (merged : Bool) : List (Node × Node) → Found →
    Except Problem Found
  | [], f => .ok f
  | (k, v) :: rest, f => do
    if isMergeKey k then addEntries d known merged rest f
    else
      match ← d.text? k with
      | none => addEntries d known merged rest f
      | some name =>
        if merged && f.names.contains name then addEntries d known merged rest f
        else if known.contains name && f.names.contains name then throw .duplicateKey
        else addEntries d known merged rest ⟨f.fields ++ [(name, v)], name :: f.names⟩

mutual

/-- Adds the entries of a mapping and of those that it merges, to a depth of `fuel`. -/
def addMapping (d : Document) (known : List Text) : (fuel : Nat) → (merged : Bool) →
    List (Node × Node) → Found → Except Problem Found
  | 0, _, _, _ => .error .endlessAnchor
  | fuel + 1, merged, entries, f => do
    if hasDuplicate entries then throw .duplicateKey
    let f ← addEntries d known merged entries f
    match entries.find? fun (k, _) => isMergeKey k with
    | none => return f
    | some (_, v) =>
      match v with
      | .sequence items => addMerged d known fuel items f
      | v => addMerged d known fuel [v] f

/-- Adds the entries of merged mappings in order. -/
def addMerged (d : Document) (known : List Text) : (fuel : Nat) → List Node → Found →
    Except Problem Found
  | 0, _, _ => .error .endlessAnchor
  | _, [], f => .ok f
  | fuel + 1, n :: rest, f => do
    match d.target n with
    | .mapping _ entries => addMerged d known fuel rest (← addMapping d known fuel true entries f)
    | _ => throw .mergeOfOther

end

/-- How many nodes a tree has. -/
def size : Node → Nat
  | .sequence items => 1 + sizes items
  | .mapping _ entries => 1 + entrySizes entries
  | _ => 1
where
  /-- How many nodes trees have. -/
  sizes : List Node → Nat
    | [] => 0
    | n :: rest => size n + sizes rest
  /-- How many nodes entries have. -/
  entrySizes : List (Node × Node) → Nat
    | [] => 0
    | (k, v) :: rest => size k + size v + entrySizes rest

/-- The fields of a mapping in order, with their nodes. -/
def fields (d : Document) (known : List Text) (entries : List (Node × Node)) :
    Except Problem (List (Text × Node)) := do
  let bound := 2 * (size d.root + size.sizes (d.anchors.map (·.2))) + 4
  let f ← d.addMapping known bound false entries {}
  return f.fields

end Document

end Yaml

end Reckoner
