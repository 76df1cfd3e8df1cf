import Reckoner.Error

/-!
# Arrays and lists

The constructors of sequences. An array holds items of one kind; `collect` chooses between an
array and a list by looking at the items.
-/

namespace Reckoner

namespace Value

/-- The first item, counted from `index`, that is missing or has another kind than `elem`. -/
def checkItems (elem : Kind) : (index : Nat) → List (Option Value) → Except Error (List Value)
  | _, [] => .ok []
  | index, v :: rest =>
    match v with
    | some v =>
      if v.kind = elem then (checkItems elem (index + 1) rest).map (v :: ·)
      else .error (.itemKind elem v.typeName index)
    | none => .error (.itemKind elem (typeName? none) index)

/-- An array of the given element kind. -/
def newArray (elem : Kind) (items : List (Option Value)) : Except Error Value :=
  (checkItems elem 0 items).map (array elem)

/-- An array of the kind of its first item; without one, of kind `int`. -/
def arrayOf (items : List (Option Value)) : Except Error Value :=
  match items with
  | some v :: _ => newArray v.kind items
  | _ => newArray .int items

/-- An array if all items share a kind, and a list otherwise. -/
def collect : List Value → Value
  | [] => array .int []
  | v :: rest => if rest.all (·.kind = v.kind) then array v.kind (v :: rest) else list (v :: rest)

/-- Wraps anything but an array in an array of one item. -/
def promote : Value → Value
  | array elem items => array elem items
  | v => array v.kind [v]

end Value

end Reckoner
