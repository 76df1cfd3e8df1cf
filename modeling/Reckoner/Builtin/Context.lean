import Reckoner.Function

/-!
# Functions on contexts

Clearing variables, creating contexts, evaluating in another context, and the two requests to the
host to change its current context.
-/

namespace Reckoner

namespace Builtin

/-- Removes the variables that the arguments from number `i` on name, one after another. -/
def clearNamed (c : ContextId) : (i : Nat) → List Argument → Run Unit
  | _, [] => return ()
  | i, a :: rest => do
    match a.deferred.bind (·.expr.reference?) with
    | some n =>
      Run.onHeap fun h => ((), (h.clearVariable c n).2)
      clearNamed c (i + 1) rest
    | none => throw (.argumentType "clear" i [] "expression" "clear([variable], ...)")

/-- Removes variables of the current context. -/
def clear : Function where
  name := "clear"
  help := "Removes the named variables, or all of them, from the current context."
  params := [{ name := "variable", isLazy := true }]
  variadic := true
  body := fun env args => do
    if args.args.isEmpty then Run.onHeap fun h => ((), h.clear env.context)
    else clearNamed env.context 0 args.args
    return none

/-- Makes a context. -/
def newContext : Function where
  name := "newcontext"
  help := "Creates a new context, evaluating the body in it, and asks the host to adopt it."
  params := [{ name := "body", isLazy := true }]
  body := fun env args => do
    let c ← Run.onHeap fun h => h.newContext []
    match args.deferred? 0 with
    | some d => let _ ← d.eval { env with context := c }
    | none => pure ()
    Run.request env.context .created c
    return some (.context c)

/-- Asks for another context. -/
def setContext : Function where
  name := "setcontext"
  help := "Asks the host to switch to a context."
  params := [{ name := "context", required := true, types := [.context] }]
  body := fun env args => do
    let c ← Run.result (args.context 0)
    Run.request env.context .swapped c
    return some (.context c)

/-- Evaluates in another context. -/
def use : Function where
  name := "use"
  help := "Evaluates an expression in another context."
  params := [{ name := "context", required := true, types := [.context] },
    { name := "expression", required := true, isLazy := true }]
  body := fun env args => do
    let c ← Run.result (args.context 0)
    match args.deferred? 1 with
    | some d => d.eval { env with context := c }
    | none => throw (.fault none)

/-- The functions on contexts. -/
def contextFunctions : List Function := [clear, newContext, setContext, use]

end Builtin

end Reckoner
