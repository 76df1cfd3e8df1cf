import Reckoner.Storage.Disk
import Reckoner.Stream.Mode
import Reckoner.Yaml.Print
import Reckoner.Yaml.Record

/-!
# Configuration

Where the global context is kept and how the program works. A configuration is read from a file,
of which every part is optional, and then changed by environment variables.
-/

namespace Reckoner

/-- Environment variables by name. One that is not set counts as empty. -/
abbrev Variables := List (Text × Text)

/-- The value of an environment variable. -/
def Variables.get (vars : Variables) (name : Text) : Text := (vars.lookup name).getD []

/-- Where the global context is kept. -/
structure GlobalConfig where
  /-- The kind of store. -/
  store : Text
  /-- The file, or the database. -/
  path : Text
  /-- The row of the database. -/
  name : Text
  /-- The name of the mode that it is written in. -/
  mode : Text
  deriving DecidableEq, Repr

/-- The configuration of the program. -/
structure Config where
  /-- Where the global context is kept, and in which mode it is written. -/
  global : GlobalConfig
  /-- The precision in bits of the elementary functions. -/
  precision : Nat
  /-- The least important entries that are still logged. -/
  logLevel : Text
  deriving DecidableEq, Repr

namespace Config

/-- The kind of store that keeps a context in a file. -/
def fileStore : Text := "file"

/-- The kind of store that keeps a context in a row of a database. -/
def databaseStore : Text := "sqlite"

/-- The kinds of stores. -/
def stores : List Text := [fileStore, databaseStore]

/-! ### Defaults -/

/-- The directory of the user's configuration; the working directory if the variables do not
give one. -/
def userDirectory (vars : Variables) : Text :=
  let base := vars.get "XDG_CONFIG_HOME"
  if base.isEmpty then
    let home := vars.get "HOME"
    if home.isEmpty then Path.here else home ++ "/.config"
  else if base.head? = some Path.slash then base else Path.here

/-- The path of a file in the directory of the program. -/
def userPath (vars : Variables) (file : Text) : Text :=
  Path.join [userDirectory vars, "expressions", file]

/-- Where the configuration is read from if nothing else is said. -/
def defaultPath (vars : Variables) : Text := userPath vars "config.yaml"

/-- The configuration without a file. -/
def default (vars : Variables) : Config where
  global := ⟨fileStore, userPath vars "global.ie", "global", Mode.compressed.name⟩
  precision := 64
  logLevel := "info"

/-! ### Reading -/

open Yaml (Document Node Problem)

/-- Changes the part of a configuration on the global context by one field. -/
def setGlobalField (d : Document) (g : GlobalConfig) (name : Text) (n : Node) :
    Except Problem GlobalConfig := do
  let text (old : Text) : Except Problem Text := return (← d.text? n).getD old
  if name = Text.ofString "store" then return { g with store := ← text g.store }
  else if name = Text.ofString "path" then return { g with path := ← text g.path }
  else if name = Text.ofString "name" then return { g with name := ← text g.name }
  else if name = Text.ofString "mode" then return { g with mode := ← text g.mode }
  else return g

/-- Changes a record by the fields of a node. A null changes nothing; anything else but a mapping
is a fault. -/
def applyFields {α : Type} (d : Document) (known : List Text)
    (set : α → Text → Node → Except Problem α) (record : α) (n : Node) : Except Problem α := do
  match d.target n with
  | .mapping _ entries => (← d.fields known entries).foldlM (fun r (name, n) => set r name n) record
  | _ =>
    match d.scalar? n with
    | some r =>
      match (← r).2 with
      | .null => return record
      | _ => throw .unsuitable
    | none => throw .unsuitable

/-- Changes a configuration by one field. -/
def setField (d : Document) (c : Config) (name : Text) (n : Node) : Except Problem Config := do
  if name = Text.ofString "global" then
    return { c with
      global := ← applyFields d ["store", "path", "name", "mode"] (setGlobalField d) c.global n }
  else if name = Text.ofString "precision" then
    return { c with precision := (← d.natural? n).getD c.precision }
  else if name = Text.ofString "log_level" then
    return { c with logLevel := (← d.text? n).getD c.logLevel }
  else return c

/-- Changes a configuration by a document. -/
def applyDocument (c : Config) (t : Text) : Except Error Config :=
  let refuse (f : Yaml.Fault) : Except Error Config :=
    .error (.during "failed to parse config" (.other f.message))
  match Document.read t with
  | .error f => refuse f
  | .ok none => .ok c
  | .ok (some d) =>
    match applyFields d ["global", "precision", "log_level"] (setField d) c d.root with
    | .ok c => .ok c
    | .error p => refuse ⟨1, p⟩

/-- Changes a configuration by environment variables. A precision that is no number of 32 bits is
ignored. -/
def applyVariables (c : Config) (vars : Variables) : Config :=
  let or (old : Text) (name : Text) : Text :=
    let new := vars.get name
    if new.isEmpty then old else new
  { c with
    global := { c.global with
      path := or c.global.path "EXPRESSIONS_GLOBAL"
      mode := or c.global.mode "EXPRESSIONS_MODE"
      store := or c.global.store "EXPRESSIONS_STORE" }
    precision :=
      match Numeral.unsigned? 32 (vars.get "EXPRESSIONS_PRECISION") with
      | .ok n => n
      | .error _ => c.precision }

/-- Reads the configuration. A file that does not exist is as good as an empty one. -/
def load (disk : Disk) (vars : Variables) (path : Text) : Except Error Config := do
  let c ← match disk.content path with
    | .ok t => (default vars).applyDocument t
    | .error e =>
      if e.isMissing then .ok (default vars) else .error (.during "failed to read config" e)
  return c.applyVariables vars

/-! ### Checking -/

/-- The mode of the global context. -/
def mode (c : Config) : Except Error Mode := Mode.ofName c.global.mode

/-- Checks the store, the path, the mode and the precision, in this order. -/
def validate (c : Config) : Except Error Unit := do
  if !stores.contains c.global.store then
    throw (.other ("invalid global store: " ++ c.global.store ++ " (valid: ["
      ++ Text.join " " stores ++ "])"))
  if c.global.path.isEmpty then
    throw (.other "global path not configured (set EXPRESSIONS_GLOBAL)")
  let _ ← c.mode
  if c.precision = 0 then throw (.other "precision must be positive")

/-- The names of the levels of the log. -/
def logLevels : List Text := ["debug", "info", "warn", "error", "dpanic", "panic", "fatal"]

/-- Checks the level of the log, of which case does not matter; an empty one is allowed. -/
def checkLogLevel (c : Config) : Except Error Unit :=
  if c.logLevel.isEmpty || logLevels.contains (Text.lower c.logLevel) then .ok ()
  else
    .error (.during "invalid log level" (.other ("unrecognized level: " ++ Text.quote c.logLevel)))

/-! ### Writing -/

/-- The configuration as a document. -/
def print (c : Config) : Text :=
  Yaml.printFields 0
    [("global", .record [("store", .text c.global.store), ("path", .text c.global.path),
        ("name", .text c.global.name), ("mode", .text c.global.mode)]),
      ("precision", .number c.precision), ("log_level", .text c.logLevel)]

/-- Writes the configuration to a file, making its directory if that is missing. -/
def save (c : Config) (disk : Disk) (path : Text) : Except Error Disk :=
  match disk.makeDirs (Path.directory path) with
  | .error e => .error (.during "failed to create config directory" e)
  | .ok disk =>
    match disk.writeFile path c.print with
    | .error e => .error (.during "failed to write config" e)
    | .ok disk => .ok disk

end Config

end Reckoner
