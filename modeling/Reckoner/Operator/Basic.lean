import Reckoner.Text.Basic

/-!
# Operators

The binary operators of the language, their symbols and priorities. Evaluation does not depend
on priorities: expressions are trees.
-/

namespace Reckoner

/-- A binary operator. -/
inductive Operator where
  | or
  | and
  | equals
  | notEquals
  | less
  | greater
  | lessEqual
  | greaterEqual
  /-- Repeats the left operand in an array. -/
  | generate
  /-- Counts from one integer to another. -/
  | interval
  | plus
  | minus
  | times
  | divide
  | modulo
  | power
  deriving DecidableEq, Repr

namespace Operator

/-- All operators, in order of increasing priority. -/
def all : List Operator :=
  [or, and, equals, notEquals, less, greater, lessEqual, greaterEqual, generate, interval, plus,
    minus, times, divide, modulo, power]

/-- How an operator is written. -/
def symbol : Operator → Text
  | or => "||"
  | and => "&&"
  | equals => "=="
  | notEquals => "!="
  | less => "<"
  | greater => ">"
  | lessEqual => "<="
  | greaterEqual => ">="
  | generate => "#"
  | interval => "..."
  | plus => "+"
  | minus => "-"
  | times => "*"
  | divide => "/"
  | modulo => "%"
  | power => "^"

/-- How tightly an operator binds. -/
def priority : Operator → Nat
  | or => 10
  | and => 15
  | equals | notEquals | less | greater | lessEqual | greaterEqual => 20
  | generate | interval => 30
  | plus | minus => 40
  | times | divide | modulo => 50
  | power => 60

/-- The operator with a symbol. -/
def ofSymbol? (t : Text) : Option Operator := all.find? fun op => op.symbol == t

/-- Whether the operator joins texts. -/
def joinsTexts (op : Operator) : Bool := op == plus

end Operator

end Reckoner
