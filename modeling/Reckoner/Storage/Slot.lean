import Reckoner.Storage.Disk

/-!
# Slots

A slot is a place that holds one stored byte string: a cell of memory, a file, or a row of a
database. Nothing is there at first, which is an error of its own when the slot is opened.
Storing happens in steps, any of which can fail: the slot is created, the bytes are written, and
closing the slot replaces what was there.

A slot can be wrapped so that one of the steps fails, whatever the slot inside would do.
-/

namespace Reckoner

/-- An open or closed connection to a database. -/
structure Connection where
  /-- The database that it leads to. -/
  database : DatabaseId
  /-- Whether it has been closed, after which it is of no use. -/
  closed : Bool := false
  deriving DecidableEq, Repr

/-- A step of using a slot. -/
inductive Stage where
  | opening
  | reading
  | creating
  | writing
  | closing
  deriving DecidableEq, Repr

/-- What the stage is called in errors. -/
def Stage.name : Stage → Text
  | opening => "open"
  | reading => "read"
  | creating => "create"
  | writing => "write"
  | closing => "close"

/-- A place that holds one stored byte string. -/
inductive Slot where
  | memory (cell : Nat)
  | file (path : Text)
  | row (conn : Connection) (name : Text)
  /-- A slot of which one step fails. -/
  | failing (stage : Stage) (inner : Slot)
  deriving Repr

/-- All places that things are stored in. -/
structure Storage where
  /-- The directories and files. -/
  disk : Disk := {}
  /-- The bytes in each cell of memory that has any. -/
  cells : List (Nat × Text) := []
  /-- The rows of each database, by name. -/
  databases : Array (List (Text × Text)) := #[]

namespace Storage

/-- The rows of a database. -/
def rows (s : Storage) (db : DatabaseId) : List (Text × Text) := s.databases[db]?.getD []

/-- Changes the rows of a database. -/
def updateRows (s : Storage) (db : DatabaseId) (f : List (Text × Text) → List (Text × Text)) :
    Storage :=
  { s with databases := s.databases.modify db f }

/-- Adds an empty database. -/
def newDatabase (s : Storage) : DatabaseId × Storage :=
  (s.databases.size, { s with databases := s.databases.push [] })

/-- The path of databases that are not kept on the disk. -/
def memoryPath : Text := ":memory:"

/-- Opens the database at a path, making it and its directory if they are missing. -/
def openDatabase (s : Storage) (path : Text) : Except Error Connection × Storage :=
  if path = memoryPath then
    let (db, s) := s.newDatabase
    (.ok ⟨db, false⟩, s)
  else
    match s.disk.makeDirs (Path.directory path) with
    | .error e => (.error (.during "failed to create directory" e), s)
    | .ok disk =>
      let s := { s with disk }
      let refuse (reason : Text) : Except Error Connection × Storage :=
        (.error (.during "failed to create schema" (.other reason)), s)
      match disk.fileLocation path with
      | .error _ => refuse "unable to open database file: out of memory (14)"
      | .ok loc =>
        match disk.at? loc with
        | some (.database db) => (.ok ⟨db, false⟩, s)
        | some (.file (_ :: _)) => refuse "file is not a database (26)"
        | _ =>
          let (db, s) := s.newDatabase
          (.ok ⟨db, false⟩, { s with disk := disk.put loc (.database db) })

end Storage

namespace Connection

/-- The connection after its database has been closed. -/
def close (c : Connection) : Connection := { c with closed := true }

/-- Refuses the use of a closed connection. -/
def require (c : Connection) : Except Error Unit :=
  if c.closed then .error (.other "sql: database is closed") else .ok ()

/-- The names of the rows in order. -/
def names (c : Connection) (s : Storage) : Except Error (List Text) := do
  c.require
  return (sortBindings (s.rows c.database)).map (·.1)

/-- Removes a row. -/
def delete (c : Connection) (name : Text) (s : Storage) : Except Error Storage := do
  c.require
  return s.updateRows c.database fun rows => rows.filter fun (n, _) => n ≠ name

end Connection

namespace Slot

/-- The failure of a step of a wrapped slot. -/
def failure (stage : Stage) : Error := .other (stage.name ++ " failed")

/-- Opens a slot for reading. -/
def openRead : Slot → Storage → Except Error Content
  | memory cell, s =>
    match s.cells.lookup cell with
    | some bytes => .ok (.ok bytes)
    | none => .error (.missing none)
  | file path, s => s.disk.openFile path
  | row conn name, s => do
    conn.require
    match (s.rows conn.database).lookup name with
    | some bytes => return .ok bytes
    | none => throw (.missing (some name))
  | failing .opening _, _ => .error (failure .opening)
  | failing .reading inner, s => do
    let _ ← inner.openRead s
    return .error (failure .reading)
  | failing _ inner, s => inner.openRead s

/-- Prepares a slot for storing. -/
def create : Slot → Storage → Except Error Storage
  | file path, s => do
    return { s with disk := ← s.disk.makeDirs (Path.directory path) }
  | failing .creating _, _ => .error (failure .creating)
  | failing _ inner, s => inner.create s
  | _, s => .ok s

/-- Why writing to a slot fails, if it does. -/
def writeFault? : Slot → Option Error
  | failing .writing _ => some (failure .writing)
  | failing _ inner => inner.writeFault?
  | _ => none

/-- Replaces what is stored by the bytes that were written. A row of no bytes is refused. -/
def commit (bytes : Text) : Slot → Storage → Except Error Storage
  | memory cell, s => .ok { s with cells := (cell, bytes) :: s.cells.filter fun (c, _) => c ≠ cell }
  | file path, s => do return { s with disk := ← s.disk.moveInto path bytes }
  | row conn name, s => do
    conn.require
    if bytes.isEmpty then
      throw (.other "constraint failed: NOT NULL constraint failed: contexts.data (1299)")
    return s.updateRows conn.database fun rows =>
      (name, bytes) :: rows.filter fun (n, _) => n ≠ name
  | failing .closing _, _ => .error (failure .closing)
  | failing _ inner, s => commit bytes inner s

end Slot

/-- Why storing fails: the slot could not be created, or not written or closed. -/
inductive StoreFault where
  /-- The slot could not be created. -/
  | creating (e : Error)
  /-- The bytes could not be written, or the slot not be closed. -/
  | writing (e : Error)

namespace Slot

/-- Stores bytes, in all steps. A slot that cannot be written to is closed nevertheless. -/
def store (p : Slot) (bytes : Text) (s : Storage) : Except StoreFault Unit × Storage :=
  match p.create s with
  | .error e => (.error (.creating e), s)
  | .ok s =>
    match p.writeFault? with
    | some e =>
      (.error (.writing e), match p.commit [] s with
        | .ok s => s
        | .error _ => s)
    | none =>
      match p.commit bytes s with
      | .ok s => (.ok (), s)
      | .error e => (.error (.writing e), s)

end Slot

end Reckoner
