import Reckoner.Function
import Reckoner.Text.Utf8

/-!
# Functions on values

The type and length of values, the constructors of sequences, and print.
-/

namespace Reckoner

namespace Builtin

/-- The name of the type of a value. -/
def typeOf : Function where
  name := "type"
  help := "Returns the type name of a value."
  params := [{ name := "value", required := true }]
  body := fun _ args => return some (.text (Value.typeName? (args.value? 0)))

/-- The kinds of values that have a length. -/
def sized : List Kind := [.array, .list, .text, .vector, .pointVector, .matrix, .context]

/-- The length of a value: items of a sequence, characters of a string, elements of a vector or
matrix, variables of a context. -/
def lengthOf? (h : Heap) : Value → Option Nat
  | .array _ items => some items.length
  | .list items => some items.length
  | .text s => some (Text.runes s).length
  | .vector xs => some xs.length
  | .pointVector ps => some ps.length
  | .matrix m => some m.data.length
  | .context c => some (h.context c).vars.length
  | _ => none

/-- The length of a value. -/
def length : Function where
  name := "length"
  help := "Returns the number of items of a sequence."
  params := [{ name := "value", required := true, types := sized }]
  body := fun _ args => do
    match (args.value? 0).bind (lengthOf? (← Run.heap)) with
    | some n => return some (.int (Int64.ofNat n))
    | none => throw (args.mismatch 0 sized)

/-- An array of the arguments. -/
def array : Function where
  name := "array"
  help := "Creates an array of items of one type."
  params := [{ name := "item" }]
  variadic := true
  body := fun _ args => do return some (← Run.result (Value.arrayOf (args.values 0)))

/-- The items of a list, counted from `i`, all of which must be there. -/
def requireItems : (i : Nat) → List (Option Value) → Except Error (List Value)
  | _, [] => .ok []
  | i, some v :: rest => (requireItems (i + 1) rest).map (v :: ·)
  | i, none :: _ => .error (.noValue ("item " ++ Text.ofNat i ++ " of list"))

/-- A list of the arguments. -/
def list : Function where
  name := "list"
  help := "Creates a list of items of any types."
  params := [{ name := "item" }]
  variadic := true
  body := fun _ args => do return some (.list (← Run.result (requireItems 0 (args.values 0))))

/-- Writes the texts of the arguments as a line. -/
def print : Function where
  name := "print"
  help := "Writes values to the output."
  params := [{ name := "value" }]
  variadic := true
  body := fun _ args => do
    let h ← Run.heap
    Run.printLine (Text.join " " ((args.values 0).map fun v => match v with
      | some v => h.text v
      | none => "null"))
    return none

/-- The functions on values. -/
def valueFunctions : List Function := [typeOf, length, array, list, print]

end Builtin

end Reckoner
