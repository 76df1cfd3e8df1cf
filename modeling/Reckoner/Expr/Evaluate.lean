import Reckoner.Function
import Reckoner.Operator.Evaluate

/-!
# Evaluation

The value of an expression in an environment. An expression may have no value, as a call of a
function that only has effects; operators accept that and report it, but items and assigned
values have to be there.
-/

namespace Reckoner

namespace Expr

/-- The error for an expression without a value where one is needed. -/
def noValue (h : Heap) (e : Expr) : Error :=
  match e.text? h.names with
  | some t => .noValue t
  | none => .fault none

/-- The value of a deferred expression, which must have one. -/
def evalRequired (env : Environment) (d : Deferred) : Run Value := do
  match ← d.eval env with
  | some v => return v
  | none => throw (d.expr.noValue (← Run.heap))

/-- The values of items from left to right. -/
def evalItems (env : Environment) : List Deferred → Run (List Value)
  | [] => return []
  | d :: rest => return (← evalRequired env d) :: (← evalItems env rest)

/-- Evaluates steps in order; `last` is the value of the step before. -/
def evalSteps (env : Environment) (last : Option Value) : List Deferred → Run (Option Value)
  | [] => return last
  | d :: rest => do evalSteps env (← d.eval env) rest

/-- Applies an operator. -/
def applyOperator (op : Operator) (l r : Option Value) : Run Value := do
  let (log, answer) := op.evaluate (← Run.heap).names l r
  Run.report log
  Run.result answer

/-- The value of a variable of the current context or its enclosing scopes. -/
def readVariable (env : Environment) (n : Text) : Run Value := do
  match (← Run.heap).lookup env.context n with
  | some v => return v
  | none => throw (.undefinedName n)

mutual

/-- Evaluates an expression. -/
def eval (fs : FunctionTable) : Expr → Environment → Run (Option Value)
  | const v, _ => return v
  | name n, env => return some (← readVariable env n)
  | binary op l r, env => do
    let a ← l.eval fs env
    let b ← r.eval fs env
    return some (← applyOperator op a b)
  | call f args, env =>
    match fs.find? f with
    | none => throw (.unknownFunction f)
    | some func => func.call env (deferAll fs args)
  | array items, env => return some (Value.collect (← evalItems env (deferAll fs items)))
  | assign n e, env => do
    let v ← evalRequired env ⟨e, e.eval fs⟩
    Run.onHeap fun h => ((), h.setVariable env.context n v)
    return some v
  | sequence steps, env => evalSteps env none (deferAll fs steps)

/-- The expressions as deferred ones. -/
def deferAll (fs : FunctionTable) : List Expr → List Deferred
  | [] => []
  | e :: rest => ⟨e, e.eval fs⟩ :: deferAll fs rest

end

end Expr

end Reckoner
