import Reckoner.Global
import Reckoner.Proofs.Reading
import Reckoner.Proofs.Runs

/-!
# Running operations on the stored context

What the operations on the stored context do, as equations. Each of them reads the bytes of the
slot, and two of them replace what is there; nothing else of the storage is looked at.
-/

namespace Reckoner

open Run

namespace Run

variable {α : Type}

theorem exec_during_ok (activity : Text) (a : α) (w : World) :
    exec (during activity (.ok a)) w = (.ok a, w) := rfl

theorem exec_during_error (activity : Text) (e : Error) (w : World) :
    exec (during activity (.error e : Except Error α)) w = (.error (.during activity e), w) := rfl

end Run

theorem Reader.next_exec (r : Reader) (h : Heap) :
    r.next h = ((r.record.exec ⟨r.decoder, h⟩).1,
      { r with decoder := (r.record.exec ⟨r.decoder, h⟩).2.decoder },
      (r.record.exec ⟨r.decoder, h⟩).2.heap) := rfl

namespace Global

variable {g : Global} {w : World}

/-- Opens the bytes of a stored context as a stream. -/
def reader (g : Global) (content : Content) : Except Error Reader := do
  Reader.start g.catalog (← content)

/-- Takes what has been read as a context. -/
def adopt (mode : Mode) (w : World) : Except Error (Option Datum) → Except Error ContextId × World
  | .error e => (.error (.during readingActivity e), w)
  | .ok none => (.ok w.heap.contexts.size, { w with heap := (w.heap.newContext []).2 })
  | .ok (some (.value (.context c))) =>
    (.ok c, { w with log := w.log ++ [.loaded (w.heap.context c).vars.length mode.name] })
  | .ok d =>
    (.error (.during readingActivity
      (malformed ("stored record is " ++ Datum.hostType w.heap d))), w)

theorem load_exec : g.load.exec w =
    match g.slot.openRead w.storage with
    | .error e =>
      if e.isMissing then
        (.ok w.heap.contexts.size,
          { w with log := w.log ++ [.nothingStored], heap := (w.heap.newContext []).2 })
      else (.error (.during openingActivity e), w)
    | .ok content =>
      match g.reader content with
      | .error e => (.error (.during readingActivity e), w)
      | .ok r =>
        adopt r.mode { w with heap := (r.next w.heap).2.2 } (r.next w.heap).1 := by
  rw [load, exec_bind_ok (exec_get w)]
  cases g.slot.openRead w.storage with
  | error e =>
    dsimp only
    cases e.isMissing with
    | true => rfl
    | false => rfl
  | ok content =>
    dsimp only
    rw [reader]
    cases hreader : (do Reader.start g.catalog (← content) : Except Error Reader) with
    | error e => rw [exec_bind_error (exec_during_error _ _ _)]
    | ok r =>
      rw [exec_bind_ok (exec_during_ok _ _ _), exec_bind_ok (exec_heap w)]
      rcases hnext : r.next w.heap with ⟨d, r', heap⟩
      dsimp only
      rw [exec_bind_ok (exec_modify _ _), hnext]
      cases d with
      | error e => rw [exec_bind_error (exec_during_error _ _ _)]; rfl
      | ok d =>
        rw [exec_bind_ok (exec_during_ok _ _ _)]
        rcases d with _ | (v | color)
        · rfl
        · cases v <;> rfl
        · rfl

/-- What comes of storing a context of so many variables. -/
def settle (mode : Mode) (vars : Nat) (w : World) :
    Except StoreFault Unit × Storage → Except Error Unit × World
  | (.ok _, storage) => (.ok (), { w with storage, log := w.log ++ [.saved vars mode.name] })
  | (.error (.creating e), storage) => (.error (.during creatingActivity e), { w with storage })
  | (.error (.writing e), storage) => (.error (.during writingActivity e), { w with storage })

theorem save_exec (c : ContextId) : (g.save c).exec w =
    match g.encode w.heap c with
    | .error e => (.error (.during writingActivity e), w)
    | .ok bytes =>
      settle g.mode (w.heap.context c).vars.length w (g.slot.store bytes w.storage) := by
  rw [save, exec_bind_ok (exec_heap w)]
  cases g.encode w.heap c with
  | error e => rw [exec_bind_error (exec_during_error _ _ _)]
  | ok bytes =>
    rw [exec_bind_ok (exec_during_ok _ _ _), exec_bind_ok (exec_get w)]
    dsimp only
    rcases g.slot.store bytes w.storage with ⟨r, storage⟩
    rw [exec_bind_ok (exec_modify _ _)]
    rcases r with (e | e) | _ <;> rfl

end Global

end Reckoner
