import Reckoner.Stream.Reader
import Reckoner.World

/-!
# The global context

One context that is kept in a slot. Every operation reads it whole, changes it and writes it back
whole; if nothing has been stored, it is empty. The context is encoded before the slot is
touched, so a value without a stored form leaves what is stored as it was.
-/

namespace Reckoner

/-- A handle on a stored context: where it is, the mode that it is written in, and the tags that
it is read with. -/
structure Global where
  /-- Where the bytes are kept. -/
  slot : Slot
  /-- How the context is written. It is read in the mode that it is found in. -/
  mode : Mode
  /-- The tags that are known when it is read. -/
  catalog : Catalog := Catalog.values

namespace Global

/-- What the port was asked for when it refused to give the stored bytes. -/
def openingActivity : Text := "failed to open global context"

/-- What was being done when the stored bytes turned out not to be a context. -/
def readingActivity : Text := "failed to read global context"

/-- What the port was asked for when it refused to take new bytes. -/
def creatingActivity : Text := "failed to create global context"

/-- What was being done when a context turned out to have no stored form, or its bytes were not
taken. -/
def writingActivity : Text := "failed to write global context"

/-- Reads the stored context, or makes an empty one if there is none. -/
def load (g : Global) : Run ContextId := do
  match g.slot.openRead (← get).storage with
  | .error e =>
    if e.isMissing then
      Run.report [.nothingStored]
      Run.onHeap fun h => h.newContext []
    else throw (.during openingActivity e)
  | .ok content =>
    let reader ← Run.during readingActivity (do Reader.start g.catalog (← content))
    let (r, _, heap) := reader.next (← Run.heap)
    modify fun w => { w with heap }
    match ← Run.during readingActivity r with
    | none => Run.onHeap fun h => h.newContext []
    | some (.value (.context c)) =>
      Run.report [.loaded (heap.context c).vars.length reader.mode.name]
      return c
    | d =>
      throw (.during readingActivity
        (malformed ("stored record is " ++ Datum.hostType heap d)))

/-- The bytes that a context is stored as. -/
def encode (g : Global) (h : Heap) (c : ContextId) : Except Error Text := do
  let w ← Writer.start g.mode
  let (w, r) := w.putValue h (some (.context c))
  r
  return w.finish

/-- Replaces the stored context. -/
def save (g : Global) (c : ContextId) : Run Unit := do
  let heap ← Run.heap
  let bytes ← Run.during writingActivity (g.encode heap c)
  let (r, storage) := g.slot.store bytes (← get).storage
  modify fun w => { w with storage }
  match r with
  | .ok _ => Run.report [.saved (heap.context c).vars.length g.mode.name]
  | .error (.creating e) => throw (.during creatingActivity e)
  | .error (.writing e) => throw (.during writingActivity e)

/-- Sets a variable of the stored context. -/
def setVariable (g : Global) (name : Text) (v : Value) : Run Unit := do
  let c ← g.load
  Run.onHeap fun h => ((), h.setVariable c name v)
  g.save c

/-- The value of a variable of the stored context. -/
def getVariable (g : Global) (name : Text) : Run Value := do
  let c ← g.load
  match (← Run.heap).lookup c name with
  | some v => return v
  | none => throw (.undefinedName name)

/-- Removes variables of the stored context, or all of them if none is named. -/
def clear (g : Global) (names : List Text) : Run Unit := do
  let c ← g.load
  Run.onHeap fun h =>
    ((), if names.isEmpty then h.clear c else names.foldl (fun h n => (h.clearVariable c n).2) h)
  g.save c

end Global

end Reckoner
