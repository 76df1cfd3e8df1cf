import Reckoner.Builtin.Context
import Reckoner.Builtin.Numeric
import Reckoner.Builtin.Sequence
import Reckoner.Builtin.Storage

/-!
# Builtin functions

All functions that expressions can call from the start.
-/

namespace Reckoner

/-- The builtin functions. -/
def builtins : FunctionTable :=
  FunctionTable.ofList (Builtin.numericFunctions ++ Builtin.valueFunctions
    ++ Builtin.contextFunctions ++ Builtin.storageFunctions)

end Reckoner
