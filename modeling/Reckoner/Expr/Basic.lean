import Reckoner.Operator.Basic
import Reckoner.Value.Text

/-!
# Expressions

Expression trees, their texts and the variables they mention. A constant may stand for no value;
such a constant has no text, and so has no expression around it.
-/

namespace Reckoner

/-- An expression. -/
inductive Expr where
  /-- A value that is written down. -/
  | const (v : Option Value)
  /-- A variable of the current context or of a scope around it. -/
  | name (n : Text)
  /-- An operator between two operands. -/
  | binary (op : Operator) (left right : Expr)
  /-- A function with its arguments. -/
  | call (func : Text) (args : List Expr)
  /-- Collects items into an array, or a list if their kinds differ. -/
  | array (items : List Expr)
  /-- Sets a variable of the current context; the value is the assigned one. -/
  | assign (n : Text) (value : Expr)
  /-- Evaluates in order; the value is the last one. -/
  | sequence (steps : List Expr)
  deriving Inhabited, Repr

namespace Expr

/-- The name of a reference to a variable. -/
def reference? : Expr → Option Text
  | name n => some n
  | _ => none

mutual

/-- The variables that are read or assigned, in order and with repetitions. -/
def mentions : Expr → List Text
  | const _ => []
  | name n => [n]
  | binary _ l r => l.mentions ++ r.mentions
  | call _ args => mentionsAll args
  | array items => mentionsAll items
  | assign n e => n :: e.mentions
  | sequence steps => mentionsAll steps

/-- The variables that several expressions mention. -/
def mentionsAll : List Expr → List Text
  | [] => []
  | e :: rest => e.mentions ++ mentionsAll rest

end

/-- The variables that are read or assigned, in the order of their first appearance. -/
def variableNames (e : Expr) : List Text := e.mentions.eraseDups

mutual

/-- The text of an expression, if it has one. -/
def text? (names : Names) : Expr → Option Text
  | const none => none
  | const (some (.text s)) => some (Text.quote s)
  | const (some v) => some (v.toText names)
  | name n => some n
  | binary op l r => do
    return "(" ++ (← l.text? names) ++ " " ++ op.symbol ++ " " ++ (← r.text? names) ++ ")"
  | call f args => do return f ++ "(" ++ Text.join ", " (← texts? names args) ++ ")"
  | array items => do return "[" ++ Text.join ", " (← texts? names items) ++ "]"
  | assign n e => do return n ++ " = " ++ (← e.text? names)
  | sequence steps => do return "\x7b" ++ Text.join "; " (← texts? names steps) ++ "\x7d"

/-- The texts of several expressions. -/
def texts? (names : Names) : List Expr → Option (List Text)
  | [] => some []
  | e :: rest => do return (← e.text? names) :: (← texts? names rest)

end

end Expr

end Reckoner
