import Reckoner.Function

/-!
# Functions on stored values

The variables of the global context, and values in files.
-/

namespace Reckoner

namespace Builtin

/-- The store of global variables, which must be there. -/
def requireGlobal (env : Environment) : Run Global :=
  match env.global with
  | some g => return g
  | none => throw .noGlobal

/-- Sets a global variable. -/
def setGlobal : Function where
  name := "setglobal"
  help := "Sets a variable of the global context."
  params := [{ name := "name", required := true, types := [.text] },
    { name := "value", required := true }]
  body := fun env args => do
    let g ← requireGlobal env
    let name ← Run.result (args.text 0)
    match args.value? 1 with
    | none => throw (.noValue ("value of " ++ name))
    | some v =>
      g.setVariable name v
      return some v

/-- Reads a global variable. -/
def getGlobal : Function where
  name := "getglobal"
  help := "Returns a variable of the global context."
  params := [{ name := "name", required := true, types := [.text] }]
  body := fun env args => do
    let g ← requireGlobal env
    let name ← Run.result (args.text 0)
    return some (← g.getVariable name)

/-- Removes global variables. -/
def clearGlobal : Function where
  name := "clearglobal"
  help := "Removes the named variables, or all of them, from the global context."
  params := [{ name := "name", types := [.text] }]
  variadic := true
  body := fun env args => do
    let g ← requireGlobal env
    let names ← Run.result ((List.range args.length).mapM args.text)
    g.clear names
    return none

/-- Writes a value to a file. The file is replaced even if the value cannot be written whole. -/
def saveFile (path : Text) (mode : Mode) (v : Option Value) : Run Unit := do
  let world ← get
  let disk ← Run.result (world.storage.disk.writeFile path [])
  modify fun w => { w with storage := { w.storage with disk } }
  let writer ← Run.result (Writer.start mode)
  let (writer, r) := writer.putValue world.heap v
  let disk ← Run.result (disk.writeFile path writer.finish)
  modify fun w => { w with storage := { w.storage with disk } }
  Run.result r

/-- Writes a value to a file. -/
def save : Function where
  name := "save"
  help := "Writes a value to a file."
  params := [{ name := "path", required := true, types := [.text] },
    { name := "value", required := true },
    { name := "mode", types := [.text], default := some (.text "compressed") }]
  body := fun _ args => do
    let path ← Run.result (args.text 0)
    let name ← Run.result (args.text 2)
    match Mode.ofName name with
    | .error _ => throw (.outsideDomain (args.value? 2) 3 "save")
    | .ok mode =>
      saveFile path mode (args.value? 1)
      return none

/-- Reads the first value of a file. -/
def loadFile (path : Text) : Run (Option Value) := do
  let content ← Run.result ((← get).storage.disk.openFile path)
  let reader ← Run.result (do Reader.start Catalog.values (← content))
  let (r, _, heap) := reader.nextValue (← Run.heap)
  modify fun w => { w with heap }
  Run.result r

/-- Reads the first value of a file. -/
def load : Function where
  name := "load"
  help := "Reads the first value of a file."
  params := [{ name := "path", required := true, types := [.text] }]
  body := fun _ args => do
    let path ← Run.result (args.text 0)
    loadFile path

/-- The functions on stored values. -/
def storageFunctions : List Function := [setGlobal, getGlobal, clearGlobal, save, load]

end Builtin

end Reckoner
