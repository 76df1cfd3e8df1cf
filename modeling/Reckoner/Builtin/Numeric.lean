import Reckoner.Function
import Reckoner.Number.Function

/-!
# Elementary functions

Functions and constants that are computed to the precision of the environment and then rounded to
a real.
-/

namespace Reckoner

namespace Builtin

/-- The kinds of numbers. -/
def numeric : List Kind := [.int, .real]

/-- A function of one number. `f` gives nothing outside of its domain. -/
def ofReal (name help : Text) (f : Nat → Binary64 → Option Binary64) : Function where
  name := name
  help := help
  params := [{ name := "x", required := true, types := numeric }]
  body := fun env args => Run.result do
    let x ← args.real 0
    if x.isNaN || x.isInfinite then throw (.outsideDomain (some (.real x)) 1 name)
    match f env.precision x with
    | some y => return some (.real y)
    | none => throw (.outsideDomain none 1 name)

/-- A constant. -/
def constant (name help : Text) (f : Nat → Binary64) : Function where
  name := name
  help := help
  body := fun env _ => return some (.real (f env.precision))

/-- Whether a number is positive and finite. -/
def isLogArgument (x : Binary64) : Bool :=
  !(x.isNaN || x.isInfinite || x.isNegative || x.isZero)

/-- The logarithm to a base. -/
def logarithm : Function where
  name := "log"
  help := "Logarithm to base 10 or to the given base."
  params := [{ name := "x", required := true, types := numeric },
    { name := "base", types := numeric, default := some (.real (Binary64.ofInt 10)) }]
  body := fun env args => Run.result do
    let x ← args.real 0
    let base ← args.real 1
    if !isLogArgument x then throw (.outsideDomain (args.value? 0) 1 "log")
    if !isLogArgument base || base.eq Binary64.one then
      throw (.outsideDomain (args.value? 1) 2 "log")
    match Binary64.logAt? env.precision x base with
    | some y => return some (.real y)
    | none => throw (.outsideDomain none 1 "log")

/-- The functions on numbers. -/
def numericFunctions : List Function :=
  [ofReal "exp" "Exponential function." fun prec x => some (Binary64.expAt prec x),
    ofReal "ln" "Natural logarithm." Binary64.lnAt?,
    logarithm,
    ofReal "sqrt" "Square root." Binary64.sqrtAt?,
    constant "pi" "The constant π." Binary64.piAt,
    constant "e" "Euler's number." fun prec => Binary64.expAt prec Binary64.one]

end Builtin

end Reckoner
