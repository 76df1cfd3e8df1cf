import Reckoner.Text.Basic

/-!
# Kinds

The kind of a value is its dynamic type. Kinds are numbered, and a number that names no kind
still has a text; only constructors that take a kind from outside can meet one.
-/

namespace Reckoner

/-- The kind of a value. -/
inductive Kind where
  /-- No kind: that of a missing value. -/
  | none
  | int
  | real
  | bool
  | text
  | dateTime
  | timeSpan
  | point
  | vector
  | pointVector
  | matrix
  | array
  | list
  | context
  /-- User-defined objects, and things of the host. -/
  | object
  /-- A number outside of the named kinds. -/
  | other (code : Int)
  deriving DecidableEq, Repr

namespace Kind

/-- The named kinds in the order of their numbers. -/
def named : List Kind :=
  [none, int, real, bool, text, dateTime, timeSpan, point, vector, pointVector, matrix, array,
    list, context, object]

/-- The kind with a number. -/
def ofCode (code : Int) : Kind :=
  if code < 0 then other code else (named[code.toNat]?).getD (other code)

/-- The name of a kind. -/
def name : Kind → Text
  | none => "none"
  | int => "int"
  | real => "double"
  | bool => "bool"
  | text => "string"
  | dateTime => "datetime"
  | timeSpan => "timespan"
  | point => "point"
  | vector => "vector"
  | pointVector => "pointvector"
  | matrix => "matrix"
  | array => "array"
  | list => "list"
  | context => "context"
  | object => "object"
  | other code => "Kind(" ++ Text.ofInt code ++ ")"

/-- The kind of values with the given name; no value has kind `none`. -/
def ofName? (t : Text) : Option Kind :=
  named.find? fun k => k ≠ none && k.name == t

/-- A list of allowed kinds as messages give it. -/
def alternatives (ks : List Kind) : Text :=
  if ks.isEmpty then "any type" else Text.join " or " (ks.map name)

end Kind

end Reckoner
