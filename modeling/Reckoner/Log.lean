import Reckoner.Text.Basic

/-!
# The log

What an evaluation reports about its work, apart from its results. An entry is written as a message
and named fields.
-/

namespace Reckoner

/-- One entry of the log. -/
inductive LogEntry where
  /-- An integer operand was taken as a real; the types are those before. -/
  | widened (op left right : Text)
  /-- The texts of the operands were joined; the types are those before. -/
  | stringified (op left right : Text)
  /-- A function runs with a number of bound arguments. -/
  | called (func : Text) (args : Nat)
  /-- There was no stored context, so an empty one is used. -/
  | nothingStored
  /-- A stored context was read. -/
  | loaded (vars : Nat) (mode : Text)
  /-- A context was stored. -/
  | saved (vars : Nat) (mode : Text)
  deriving DecidableEq, Repr

/-- What a field of an entry holds. -/
inductive LogValue where
  /-- The name of an operator, a function, a type or a mode. -/
  | text (t : Text)
  /-- A number of arguments or variables. -/
  | count (n : Nat)
  deriving DecidableEq, Repr

namespace LogEntry

/-- What happened, without what it happened to. -/
def message : LogEntry → Text
  | widened .. => "widened operands"
  | stringified .. => "stringified operands"
  | called .. => "call"
  | nothingStored => "no global context stored"
  | loaded .. => "loaded global context"
  | saved .. => "saved global context"

/-- The fields behind the message, in the order in which they are written. -/
def fields : LogEntry → List (Text × LogValue)
  | widened op left right | stringified op left right =>
    [("op", .text op), ("left", .text left), ("right", .text right)]
  | called func args => [("func", .text func), ("args", .count args)]
  | nothingStored => []
  | loaded vars mode | saved vars mode => [("vars", .count vars), ("mode", .text mode)]

/-- **Nothing is lost by writing**: an entry can be told from its message and its fields. -/
theorem eq_of_written {e e' : LogEntry} (hmessage : e.message = e'.message)
    (hfields : e.fields = e'.fields) : e = e' := by
  have hoperands : Text.ofString "widened operands" ≠ "stringified operands" := by decide
  have hcontext : Text.ofString "loaded global context" ≠ "saved global context" := by decide
  cases e <;> cases e' <;> simp_all [message, fields]

end LogEntry

end Reckoner
