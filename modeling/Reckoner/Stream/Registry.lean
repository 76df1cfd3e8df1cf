import Reckoner.Heap
import Reckoner.Stream.Record

/-!
# Registries of tags

A registry says which tags stand for objects and from which version of the format on. A registry
may extend another one: tags that it does not know are looked up there, and at the end of the
chain every tag is unknown. A registry extends an older one, so chains are finite.

What a tag makes is left open here; readers of values use registries of `Maker`.
-/

namespace Reckoner

/-- The number of a registry. -/
abbrev RegistryId := Nat

/-- What a tag makes, and the first version that knows the tag. -/
structure Registration (α : Type) where
  /-- The first version that knows the tag. -/
  since : Int
  /-- What the tag makes. -/
  make : α
  deriving Repr

/-- The tags of one registry, and the registry that it extends. -/
structure Registry (α : Type) where
  /-- The registry that is asked for tags that are not here. -/
  parent : Option RegistryId := none
  /-- The tags with what they make. -/
  entries : List (Text × Registration α) := []

/-- All registries, numbered in the order of their creation. -/
structure Registries (α : Type) where
  /-- The registries by their numbers. -/
  all : Array (Registry α) := #[]

namespace Registries

variable {α : Type}

/-- The registry with a number. -/
def get (rs : Registries α) (r : RegistryId) : Registry α := rs.all[r]?.getD {}

/-- Adds an empty registry that extends another one or, without one, knows no tags. -/
def create (rs : Registries α) (parent : Option RegistryId) : RegistryId × Registries α :=
  (rs.all.size, ⟨rs.all.push { parent }⟩)

/-- Adds a tag. Built-in tags and tags that the registry itself already has are refused. -/
def register (rs : Registries α) (r : RegistryId) (tag : Text) (since : Int) (make : α) :
    Except Error (Registries α) :=
  if tag ∈ Scalar.builtinTags then
    .error (.fault (some ("ie: cannot register built-in tag " ++ Text.quote tag)))
  else if ((rs.get r).entries.lookup tag).isSome then
    .error (.fault (some ("ie: tag " ++ Text.quote tag ++ " registered twice")))
  else
    .ok ⟨rs.all.modify r fun reg => { reg with entries := (tag, ⟨since, make⟩) :: reg.entries }⟩

/-- The tags of one registry in order. -/
def tags (rs : Registries α) (r : RegistryId) : List Text :=
  (sortBindings ((rs.get r).entries.map fun (t, _) => (t, ()))).map (·.1)

/-- At most `n` registries of the chain, the given one first. -/
def chainFrom (rs : Registries α) : (n : Nat) → RegistryId → List RegistryId
  | 0, _ => []
  | n + 1, r => r :: match (rs.get r).parent with
    | none => []
    | some p => chainFrom rs n p

/-- The registration of a tag in the nearest registry that has it. -/
def find? (rs : Registries α) (r : RegistryId) (tag : Text) : Option (Registration α) :=
  (rs.chainFrom (r + 1) r).findSome? fun p => (rs.get p).entries.lookup tag

/-- What a tag makes in a stream of a version. -/
def resolve (rs : Registries α) (r : RegistryId) (tag : Text) (version : Int) : Except Error α :=
  match rs.find? r tag with
  | none => .error (.unknownTag tag)
  | some reg =>
    if version < reg.since then .error (.newerTag tag reg.since version) else .ok reg.make

end Registries

/-! ### The tags of values -/

/-- What a tag makes: one of the composite values, or a user-defined object of a type that the
host names, whose fields have the given names and comments. -/
inductive Maker where
  | point
  | vector
  | pointVector
  | matrix
  | array
  | list
  | context
  /-- A user-defined object. -/
  | object (hostType : Text) (fields : List (Text × Text))
  deriving DecidableEq, Repr

/-- How a reader finds out what a tag makes in a stream of a version. -/
abbrev Catalog := (tag : Text) → (version : Int) → Except Error Maker

namespace Catalog

/-- The catalog that knows no tags. -/
def base : Catalog := fun tag _ => .error (.unknownTag tag)

/-- The tags of the composite values, all known since the first version. -/
def valueTags : List (Text × Maker) :=
  [("point", .point), ("vector", .vector), ("pointvector", .pointVector), ("matrix", .matrix),
    ("array", .array), ("list", .list), ("context", .context)]

/-- The registry of the composite values. -/
def valueRegistry : Registries Maker :=
  ⟨#[{ entries := valueTags.map fun (tag, m) => (tag, ⟨1, m⟩) }]⟩

/-- The catalog of the composite values. -/
def values : Catalog := valueRegistry.resolve 0

/-- The catalog of the composite values extended by one tag. -/
def extended (tag : Text) (since : Int) (make : Maker) : Except Error Catalog := do
  let (r, rs) := valueRegistry.create (some 0)
  let rs ← rs.register r tag since make
  return rs.resolve r

end Catalog

end Reckoner
