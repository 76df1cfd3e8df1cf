import Reckoner.Error
import Reckoner.Heap
import Reckoner.Storage.Path

/-!
# Disks

Directories and files as they are seen from a working directory. A path is walked part by part;
every part but the last has to be a directory that exists. Opening a directory succeeds, and only
reading it fails.
-/

namespace Reckoner

/-- The number of a database. -/
abbrev DatabaseId := Nat

/-- What a name in a directory stands for. -/
inductive Entry where
  /-- A file with its bytes. -/
  | file (bytes : Text)
  /-- A directory. -/
  | directory
  /-- A file that a database lies in. -/
  | database (db : DatabaseId)
  deriving DecidableEq, Repr

/-- A place on a disk: the names that lead to it from the working directory. A place that starts
with a slash is counted from the root. -/
abbrev Location := List Text

/-- Directories and files. -/
structure Disk where
  /-- What is at each location that has something. -/
  entries : List (Location × Entry) := []

/-- What reading gives once opening has succeeded. -/
abbrev Content := Except Error Text

namespace Disk

/-- The root of all absolute paths. -/
def root : Location := [[Path.slash]]

/-- The entry at a place. The working directory, the directories around it and the root always
exist. -/
def at? (d : Disk) (loc : Location) : Option Entry :=
  if loc = root || loc.all (· = Path.up) then some .directory else d.entries.lookup loc

/-- Changes the entry at a place. -/
def put (d : Disk) (loc : Location) (e : Entry) : Disk :=
  ⟨(loc, e) :: d.entries.filter fun (l, _) => l ≠ loc⟩

/-- The directory around a place. -/
def enclosing (loc : Location) : Location :=
  if loc = root then root
  else if loc.all (· = Path.up) then loc ++ [Path.up]
  else loc.dropLast

/-- Longest name of a file. -/
def maxName : Nat := 255

/-- Length that paths stay below. -/
def maxPath : Nat := 4096

/-- Walks parts of a path from a place on. -/
def walk (d : Disk) : Location → List Text → Except FileFault Location
  | loc, [] => .ok loc
  | loc, part :: rest =>
    match d.at? loc with
    | none => .error .noEntry
    | some .directory =>
      if part.isEmpty || part = Path.here then walk d loc rest
      else if part = Path.up then walk d (enclosing loc) rest
      else if maxName < part.length then .error .nameTooLong
      else walk d (loc ++ [part]) rest
    | some _ => .error .notDirectory

/-- The place that a path leads to, whether or not anything is there. -/
def resolve (d : Disk) (path : Text) : Except FileFault Location :=
  if path.contains 0 then .error .invalid
  else if path.isEmpty then .error .noEntry
  else if maxPath ≤ path.length then .error .nameTooLong
  else d.walk (if path.head? = some Path.slash then root else []) (Text.splitAtByte Path.slash path)

/-- The entry that a path leads to. -/
def find (d : Disk) (path : Text) : Except FileFault Entry := do
  match d.at? (← d.resolve path) with
  | some e => return e
  | none => throw .noEntry

/-- What a database file starts with. -/
def databaseMark : Text := Text.ofString "SQLite format 3" ++ [0]

/-- Opens a file for reading. -/
def openFile (d : Disk) (path : Text) : Except Error Content :=
  match d.find path with
  | .error e => .error (.file "open" path e)
  | .ok (.file bytes) => .ok (.ok bytes)
  | .ok .directory => .ok (.error (.file "read" path .isDirectory))
  | .ok (.database _) => .ok (.ok databaseMark)

/-- Opens and reads a file. -/
def content (d : Disk) (path : Text) : Except Error Text := do
  (← d.openFile path)

/-- The place where a path lets a file be created or replaced. -/
def fileLocation (d : Disk) (path : Text) : Except FileFault Location := do
  let loc ← d.resolve (if (Path.trimSlashes path).isEmpty then path else Path.trimSlashes path)
  if path.getLast? = some Path.slash then throw .isDirectory
  match d.at? loc with
  | some .directory => throw .isDirectory
  | _ => return loc

/-- Creates a file or replaces the one that is there. -/
def writeFile (d : Disk) (path bytes : Text) : Except Error Disk :=
  match d.fileLocation path with
  | .ok loc => .ok (d.put loc (.file bytes))
  | .error e => .error (.file "open" path e)

/-- Moves a finished file to its place. -/
def moveInto (d : Disk) (path bytes : Text) : Except Error Disk :=
  match d.fileLocation path with
  | .ok loc => .ok (d.put loc (.file bytes))
  | .error _ => .error .rename

/-- Makes one directory. -/
def makeDir (d : Disk) (path : Text) : Except FileFault Disk := do
  let loc ← d.resolve (if (Path.trimSlashes path).isEmpty then path else Path.trimSlashes path)
  match d.at? loc with
  | some _ => throw .alreadyExists
  | none => return d.put loc .directory

/-- Makes a directory and, to a depth of `fuel`, those around it that are missing. -/
def makeDirsWithin (d : Disk) : (fuel : Nat) → (path : Text) → Except Error Disk
  | 0, path => .error (.file "mkdir" path .noEntry)
  | fuel + 1, path =>
    match d.find path with
    | .ok .directory => .ok d
    | .ok _ => .error (.file "mkdir" path .notDirectory)
    | .error _ => do
      let parent := Path.parentPart path
      let d ← if parent.isEmpty then pure d else makeDirsWithin d fuel parent
      match d.makeDir path with
      | .ok d => return d
      | .error e =>
        match d.find path with
        | .ok .directory => return d
        | _ => throw (.file "mkdir" path e)

/-- Makes a directory and those around it that are missing. -/
def makeDirs (d : Disk) (path : Text) : Except Error Disk :=
  d.makeDirsWithin (path.length + 1) path

/-- The names in a directory in order. -/
def list (d : Disk) (path : Text) : Except Error (List Text) :=
  match d.resolve path with
  | .error e => .error (.file "open" path e)
  | .ok loc =>
    match d.at? loc with
    | none => .error (.file "open" path .noEntry)
    | some .directory =>
      let inside := d.entries.filterMap fun (l, _) =>
        if l.dropLast = loc then l.getLast? else none
      .ok ((sortBindings (inside.map fun n => (n, ()))).map (·.1))
    | some _ => .error (.file "readdirent" path .notDirectory)

end Disk

end Reckoner
