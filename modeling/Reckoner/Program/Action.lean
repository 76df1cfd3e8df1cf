import Reckoner.Builtin
import Reckoner.Config
import Reckoner.Expr.Evaluate
import Reckoner.Literal
import Reckoner.Program.Invocation
import Reckoner.Stream.Copy

/-!
# What commands do

Each command as a computation on the contexts, the storage and the output.
-/

namespace Reckoner

namespace Program

/-- The text of a value. -/
def textOf (v : Value) : Run Text := return (← Run.heap).text v

/-- Prints a value on a line of its own. -/
def printValue (v : Value) : Run Unit := do Run.printLine (← textOf v)

/-- The value of a literal. -/
def literal (t : Text) : Run Value := Run.result (Literal.parse t)

/-- Changes the disk, or fails. -/
def changeDisk (f : Disk → Except Error Disk) : Run Unit := do
  let disk ← Run.result (f (← get).storage.disk)
  modify fun w => { w with storage := { w.storage with disk } }

/-- Opens the store of the global context. -/
def openGlobal (c : Config) : Run Global := do
  let mode ← Run.result c.mode
  if c.global.store = Config.databaseStore then
    let (r, storage) := (← get).storage.openDatabase c.global.path
    modify fun w => { w with storage }
    return { slot := .row (← Run.result r) c.global.name, mode }
  else return { slot := .file c.global.path, mode }

/-- Applies an operator to two literals. -/
def calculate (symbol left right : Text) : Run Unit := do
  match Operator.ofSymbol? symbol with
  | none =>
    throw (.other ("unknown operator " ++ Text.quote symbol ++ " (known: "
      ++ Text.join " " (Operator.all.map Operator.symbol) ++ ")"))
  | some op =>
    let l ← literal left
    let r ← literal right
    printValue (← Expr.applyOperator op (some l) (some r))

/-- Calls a builtin function with literals. -/
def call (c : Config) (func : Text) (args : List Text) : Run Unit := do
  let values ← args.mapM literal
  let g ← openGlobal c
  let context ← Run.onHeap fun h => h.newContext []
  let env : Environment := { context, precision := c.precision, global := some g }
  let e := Expr.call func (values.map fun v => .const (some v))
  match ← e.eval builtins env with
  | some v => printValue v
  | none => return ()

/-- The width of the descriptions in front of the help on functions. -/
def usageWidth : Nat := 40

/-- Lists the builtin functions. -/
def funcs : Run Unit :=
  (builtins.names.filterMap builtins.find?).forM fun f =>
    Run.printLine (Text.padRight usageWidth f.usage ++ " " ++ f.help)

/-- Starts to read a file of records. -/
def openStream (path : Text) : Run Reader := do
  let content ← Run.result ((← get).storage.disk.openFile path)
  Run.result (do Reader.start Catalog.values (← content))

/-- Prints up to `fuel` values of a stream. -/
def dumpValues : (fuel : Nat) → Reader → Run Unit
  | 0, _ => return ()
  | fuel + 1, r => do
    let (next, r, heap) := r.nextValue (← Run.heap)
    modify fun w => { w with heap }
    match ← Run.result next with
    | none => return ()
    | some v =>
      Run.printLine (v.typeName ++ ": " ++ (← textOf v))
      dumpValues fuel r

/-- Prints the values of a file of records. Each of them takes at least one byte. -/
def dump (path : Text) : Run Unit := do
  let r ← openStream path
  let name : Text := if r.name.isEmpty then [] else " (" ++ r.name ++ ")"
  Run.printLine ("# mode " ++ r.mode.name ++ ", version " ++ Text.ofInt r.version ++ name)
  dumpValues (r.decoder.size + 1) r

/-- Copies the values of one file into another of a mode. What was copied before a failure stays. -/
def copyFile (mode : Mode) (source target : Text) : Run Copy := do
  let r ← openStream source
  changeDisk fun d => d.writeFile target []
  let copy := Copy.all r (← Run.result (Writer.start mode))
  changeDisk fun d => d.writeFile target copy.finish
  return copy

/-- Rewrites a file in another mode. -/
def convert (modeName source target : Text) : Run Unit := do
  let mode ← Run.result (Mode.ofName modeName)
  let copy ← copyFile mode source target
  match copy.failure with
  | some e => throw e
  | none => return ()

/-- Prints the variables of a context. -/
def printContext (c : ContextId) : Run Unit := do
  let vars := ((← Run.heap).context c).vars
  vars.forM fun (name, v) => do
    Run.printLine (name ++ " = " ++ (← textOf v) ++ " (" ++ v.typeName ++ ")")

/-- Prints the variables of the global context. -/
def listVariables (c : Config) : Run Unit := do
  let g ← openGlobal c
  printContext (← g.load)

/-- Prints the variables of the global context as they are now, for a start. What cannot be loaded
is not shown, since its writer may not have finished. -/
def watch (c : Config) : Run Unit := do
  if c.global.store ≠ Config.fileStore then
    throw (.other ("watch needs the file store, not " ++ c.global.store))
  let g ← openGlobal c
  changeDisk fun d => d.makeDirs (Path.directory c.global.path)
  try
    let context ← g.load
    Run.printLine "--"
    printContext context
  catch _ => return ()

/-- Carries out a command. -/
def perform (c : Config) (options : Options) : Command → List Text → Run Unit
  | .calculate, [op, left, right] => calculate op left right
  | .call, func :: args => call c func args
  | .funcs, _ => funcs
  | .dump, [path] => dump path
  | .convert, [source, target] => convert options.mode source target
  | .list, _ => listVariables c
  | .get, [name] => do printValue (← (← openGlobal c).getVariable name)
  | .set, [name, value] => do
    let v ← literal value
    (← openGlobal c).setVariable name v
  | .clear, names => do (← openGlobal c).clear names
  | .watch, _ => watch c
  | _, _ => return ()

end Program

end Reckoner
