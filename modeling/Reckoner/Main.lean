import Reckoner.Program

/-!
# The command line

The outermost layer: it shows the program the files that a command line can mean, runs it, and
writes back the files that have changed. Databases are kept in memory only.
-/

namespace Reckoner

namespace Main

/-- The string of a text; nothing if it is not UTF-8. -/
def toString? (t : Text) : Option String := String.fromUTF8? ⟨t.toArray⟩

/-- The variables that the program looks at. -/
def variableNames : List String :=
  ["EXPRESSIONS_GLOBAL", "EXPRESSIONS_MODE", "EXPRESSIONS_STORE", "EXPRESSIONS_PRECISION",
    "XDG_CONFIG_HOME", "HOME"]

/-- The environment variables that are set, of those that are looked at. -/
def readVariables : IO Variables :=
  variableNames.filterMapM fun name => do
    return (← IO.getEnv name).map fun value => (Text.ofString name, Text.ofString value)

/-- Puts a directory or file on the disk, if it exists. -/
def showPath (disk : Disk) (path : Text) : IO Disk := do
  match toString? path with
  | none => return disk
  | some name =>
    let place := (← IO.currentDir) / name
    if ← place.isDir then return (disk.makeDirs path).toOption.getD disk
    else
      try
        let bytes := (← IO.FS.readBinFile place).data.toList
        return (disk.writeFile path bytes).toOption.getD disk
      catch _ => return disk

/-- Puts a path and the directory that it is in on the disk, as far as they exist. -/
def showFile (disk : Disk) (path : Text) : IO Disk := do
  if path.isEmpty then return disk
  showPath (← showPath disk (Path.directory path)) path

/-- The path of a place on a disk. -/
def pathOf (loc : Location) : Text :=
  match loc with
  | first :: rest =>
    if first = [Path.slash] then first ++ Text.join [Path.slash] rest
    else Text.join [Path.slash] loc
  | [] => Path.here

/-- Writes back what a run has changed, in the order in which it was changed. -/
def writeBack (before after : Disk) : IO Unit := do
  for (loc, entry) in after.entries.reverse do
    if before.at? loc ≠ some entry then
      match toString? (pathOf loc), entry with
      | some name, .directory => IO.FS.createDirAll name
      | some name, .file bytes => IO.FS.writeBinFile name ⟨bytes.toArray⟩
      | _, _ => pure ()

/-- Writes bytes to a stream. -/
def writeText (h : IO.FS.Stream) (t : Text) : IO Unit := do
  h.write ⟨t.toArray⟩
  h.flush

end Main

end Reckoner

open Reckoner Reckoner.Main in
/-- Runs the program. -/
def main (args : List String) : IO UInt32 := do
  let vars ← readVariables
  let words := args.map Text.ofString
  let config := match Program.Invocation.read (Config.defaultPath vars) words with
    | .ok (.run _ options _) => options.config
    | _ => []
  let disk ← showFile {} config
  let stored := match Config.load disk vars config with
    | .ok c => c.global.path
    | .error _ => []
  let disk ← (stored :: words).foldlM showFile disk
  let r := Program.run vars { disk } words
  writeText (← IO.getStdout) r.out
  writeText (← IO.getStderr) r.err
  writeBack disk r.storage.disk
  return if r.ok then 0 else 1
