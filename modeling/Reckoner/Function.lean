import Reckoner.Expr.Basic
import Reckoner.Global
import Reckoner.Value.Sequence

/-!
# Functions

A function declares the contract of its parameters. Before its body runs, the number of arguments
is checked, eager arguments are evaluated from left to right, their kinds are checked, omitted
arguments get their defaults, and arguments of parameters that take arrays are wrapped. Lazy
arguments are handed to the body unevaluated.

A function can be called with expressions or invoked with values; both run the same way.
-/

namespace Reckoner

/-- What an evaluation takes from its surroundings. -/
structure Environment where
  /-- The current context. -/
  context : ContextId
  /-- The precision in bits of the elementary functions. -/
  precision : Nat := 64
  /-- The store of global variables. -/
  global : Option Global := none

/-- An expression that is not evaluated yet, and how it will be. -/
structure Deferred where
  /-- The expression as it is written. -/
  expr : Expr
  /-- Evaluates it, in the environment of the function that asks. -/
  eval : Environment → Run (Option Value)

/-- A value as an expression. -/
def Deferred.const (v : Option Value) : Deferred := ⟨.const v, fun _ => return v⟩

/-- The contract of a parameter. -/
structure Parameter where
  /-- The name that usage lines show. -/
  name : Text
  /-- A call without the argument is refused. -/
  required : Bool := false
  /-- The argument is handed over unevaluated. -/
  isLazy : Bool := false
  /-- Anything but an array is wrapped in an array of one item. -/
  toArray : Bool := false
  /-- The kinds that are allowed; all if there are none. -/
  types : List Kind := []
  /-- The value of an omitted argument. -/
  default : Option Value := none
  deriving Inhabited

/-- A bound argument: a value, if it is eager and has one, and an expression if it is lazy. -/
structure Argument where
  /-- The value of an eager argument, or the default of an omitted one. -/
  value : Option Value := none
  /-- The expression of a lazy argument. -/
  deferred : Option Deferred := none

/-- The bound arguments of a call of the named function. -/
structure Arguments where
  /-- The name of the function, for its errors. -/
  func : Text
  /-- One for every parameter, and behind them those of a variadic function. -/
  args : List Argument

namespace Arguments

/-- How many arguments there are, defaults included. -/
def length (a : Arguments) : Nat := a.args.length

/-- The value of an argument. -/
def value? (a : Arguments) (i : Nat) : Option Value := a.args[i]?.bind (·.value)

/-- The values of the arguments from one on. -/
def values (a : Arguments) (i : Nat) : List (Option Value) := (a.args.drop i).map (·.value)

/-- The expression of a lazy argument. -/
def deferred? (a : Arguments) (i : Nat) : Option Deferred := a.args[i]?.bind (·.deferred)

/-- The error for an argument that has none of the wanted kinds. -/
def mismatch (a : Arguments) (i : Nat) (want : List Kind) : Error :=
  .argumentType a.func i want (Value.typeName? (a.value? i)) []

/-- An argument as an integer. -/
def int (a : Arguments) (i : Nat) : Except Error Int64 :=
  match a.value? i with
  | some (.int n) => .ok n
  | _ => .error (a.mismatch i [.int])

/-- An argument as a real; an integer is taken as one. -/
def real (a : Arguments) (i : Nat) : Except Error Binary64 :=
  match a.value? i with
  | some (.real x) => .ok x
  | some (.int n) => .ok (Binary64.ofInt n.toInt)
  | _ => .error (a.mismatch i [.int, .real])

/-- An argument as a string. -/
def text (a : Arguments) (i : Nat) : Except Error Text :=
  match a.value? i with
  | some (.text s) => .ok s
  | _ => .error (a.mismatch i [.text])

/-- An argument as a context. -/
def context (a : Arguments) (i : Nat) : Except Error ContextId :=
  match a.value? i with
  | some (.context c) => .ok c
  | _ => .error (a.mismatch i [.context])

end Arguments

/-- A function with its contract. -/
structure Function where
  /-- The name that the function is called by. -/
  name : Text
  /-- What the function does, in one line. -/
  help : Text
  /-- The contracts of the parameters, in order. -/
  params : List Parameter := []
  /-- More arguments than parameters are allowed; they follow the contract of the last one. -/
  variadic : Bool := false
  /-- What the function does with arguments that keep the contract. -/
  body : Environment → Arguments → Run (Option Value)

namespace Parameter

/-- Whether an argument of a kind is allowed. -/
def allows (p : Parameter) (k : Kind) : Bool := p.types.isEmpty || p.types.contains k

/-- The kind that counts for an argument. -/
def effectiveKind (p : Parameter) (v : Value) : Kind :=
  if p.toArray then v.promote.kind else v.kind

/-- The parameter in a description of the function. -/
def usage (p : Parameter) : Text :=
  let named := if p.types.isEmpty then p.name else p.name ++ ": " ++ Kind.alternatives p.types
  if p.required then named else "[" ++ named ++ "]"

end Parameter

namespace Function

/-- The first required parameter behind an optional one. -/
def misplaced? : (optional : Bool) → List Parameter → Option Parameter
  | _, [] => none
  | optional, p :: rest =>
    if p.required && optional then some p else misplaced? (optional || !p.required) rest

/-- Refuses a required parameter behind an optional one. -/
def require (f : Function) : Except Error Function :=
  match misplaced? false f.params with
  | none => .ok f
  | some p =>
    .error (.fault (some ("expressions: required parameter " ++ p.name ++ " of " ++ f.name
      ++ " follows an optional one")))

/-- The least number of arguments. -/
def least (f : Function) : Nat := f.params.countP (·.required)

/-- The largest number of arguments, if there is one. -/
def most? (f : Function) : Option Nat := if f.variadic then none else some f.params.length

/-- The contract of an argument. -/
def spec (f : Function) (i : Nat) : Parameter :=
  match f.params[i]? with
  | some p => p
  | none => f.params.getLast?.getD { name := [] }

/-- A description of the function and its parameters. -/
def usage (f : Function) : Text :=
  f.name ++ "(" ++ Text.join ", " (f.params.map Parameter.usage)
    ++ (if f.variadic then ", ..." else "") ++ ")"

/-- Checks the number of arguments. -/
def checkCount (f : Function) (n : Nat) : Except Error Unit :=
  if n < f.least || f.most?.any (· < n) then
    .error (.argumentCount f.name f.least f.most? n f.usage)
  else .ok ()

/-- Checks the kinds of arguments from number `i` on. -/
def checkKinds (f : Function) : (i : Nat) → List (Option Value) → Except Error Unit
  | _, [] => .ok ()
  | i, none :: rest => checkKinds f (i + 1) rest
  | i, some v :: rest =>
    let p := f.spec i
    if p.isLazy || p.allows (p.effectiveKind v) then checkKinds f (i + 1) rest
    else .error (.argumentType f.name i p.types v.typeName f.usage)

/-- Checks the number and the kinds of arguments. Lazy arguments and those without a value have
no kind to check. -/
def checkArguments (f : Function) (values : List (Option Value)) : Except Error Unit := do
  f.checkCount values.length
  f.checkKinds 0 values

/-- The defaults of the parameters behind the first `n`, up to the last that has one. -/
def defaults (f : Function) (n : Nat) : List Argument :=
  (((f.params.drop n).reverse.dropWhile (·.default.isNone)).reverse).map fun p =>
    { value := p.default }

/-- Wraps an argument if its parameter takes arrays. -/
def promote (f : Function) (i : Nat) (a : Argument) : Argument :=
  if (f.spec i).toArray then { a with value := a.value.map Value.promote } else a

/-- All bound arguments: those given, then defaults, wrapped where needed. -/
def complete (f : Function) (given : List Argument) : List Argument :=
  (given ++ f.defaults given.length).mapIdx f.promote

/-- Checks bound arguments and runs the body. -/
def run (f : Function) (env : Environment) (given : List Argument) : Run (Option Value) := do
  Run.result (f.checkArguments (given.map (·.value)))
  let args := f.complete given
  Run.report [.called f.name args.length]
  f.body env ⟨f.name, args⟩

/-- Evaluates argument number `i` if it is eager. -/
def bindOne (f : Function) (env : Environment) (i : Nat) (d : Deferred) : Run Argument := do
  if (f.spec i).isLazy then return { deferred := some d }
  else return { value := ← d.eval env }

/-- Binds the arguments from number `i` on, from left to right. -/
def bind (f : Function) (env : Environment) : (i : Nat) → List Deferred → Run (List Argument)
  | _, [] => return []
  | i, d :: rest => return (← f.bindOne env i d) :: (← f.bind env (i + 1) rest)

/-- Calls a function with expressions. -/
def call (f : Function) (env : Environment) (args : List Deferred) : Run (Option Value) := do
  Run.result (f.checkCount args.length)
  f.run env (← f.bind env 0 args)

/-- Runs a function with values. Lazy parameters receive them as constants. -/
def invoke (f : Function) (env : Environment) (values : List (Option Value)) :
    Run (Option Value) :=
  f.run env (values.mapIdx fun i v =>
    if (f.spec i).isLazy then { deferred := some (.const v) } else { value := v })

end Function

/-! ### Sets of functions -/

/-- Functions by their names, of which case does not matter. -/
structure FunctionTable where
  /-- The functions by their names in lower case, sorted by these. -/
  entries : List (Text × Function) := []

namespace FunctionTable

/-- Adds a function, replacing one of the same name. -/
def register (t : FunctionTable) (f : Function) : FunctionTable :=
  ⟨insertSorted (Text.lower f.name) f t.entries⟩

/-- The table of some functions, registered one after another. -/
def ofList (fs : List Function) : FunctionTable := fs.foldl register {}

/-- The function with a name. -/
def find? (t : FunctionTable) (name : Text) : Option Function := t.entries.lookup (Text.lower name)

/-- The names of all functions in order. -/
def names (t : FunctionTable) : List Text :=
  (sortBindings (t.entries.map fun (_, f) => (f.name, ()))).map (·.1)

end FunctionTable

end Reckoner
