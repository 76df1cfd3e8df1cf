import Reckoner.Heap
import Reckoner.Log
import Reckoner.Output
import Reckoner.Storage.Slot

/-!
# Runs

What an evaluation can change, and computations that change it. A computation that fails keeps
the changes made before the failure.
-/

namespace Reckoner

/-- Everything that an evaluation can change. -/
structure World where
  /-- The contexts and objects. -/
  heap : Heap := {}
  /-- Where print goes; nowhere if there is no printer. -/
  out : Option Printer := none
  /-- What has been reported so far. -/
  log : List LogEntry := []
  /-- The requests that listeners have received. -/
  events : List Event := []
  /-- The files, the memory cells and the databases. -/
  storage : Storage := {}

/-- A computation with a result or an error. -/
abbrev Run (α : Type) := ExceptT Error (StateM World) α

namespace Run

/-- Runs a computation. -/
def exec {α : Type} (r : Run α) (w : World) : Except Error α × World := (ExceptT.run r).run w

/-- A result that changes nothing. -/
def result {α : Type} (r : Except Error α) : Run α := ExceptT.mk (pure r)

/-- The contexts and objects as they are now. -/
def heap : Run Heap := return (← get).heap

/-- Changes the contexts and objects. -/
def onHeap {α : Type} (f : Heap → α × Heap) : Run α := do
  let w ← get
  let (a, heap) := f w.heap
  set { w with heap }
  return a

/-- Adds entries to the log. -/
def report (entries : List LogEntry) : Run Unit :=
  modify fun w => { w with log := w.log ++ entries }

/-- Puts an activity in front of an error. -/
def during {α : Type} (activity : Text) (r : Except Error α) : Run α :=
  result (match r with
    | .ok a => .ok a
    | .error e => .error (.during activity e))

/-- Writes a line of output. -/
def printLine (t : Text) : Run Unit :=
  modify fun w => { w with out := w.out.map fun p => p.writeLine t }

/-- Tells the listeners of a context and its enclosing scopes about a request. -/
def request (c : ContextId) (kind : Request) (next : ContextId) : Run Unit :=
  modify fun w => { w with events := w.events ++ w.heap.events c kind next }

end Run

end Reckoner
