import Mathlib.Tactic
import Reckoner.World

/-!
# Running computations

What a computation does to the world, as an equation for every way in which computations are put
together.
-/

namespace Reckoner

section

variable {α β : Type} {r : Except Error α} {b : β}

theorem ok_of_map {f : α → β} (h : r.map f = .ok b) : ∃ a, r = .ok a ∧ f a = b := by
  cases r with
  | error e => cases h
  | ok a => exact ⟨a, rfl, Except.ok.inj h⟩

theorem ok_of_bind {f : α → Except Error β} (h : (r >>= f) = .ok b) :
    ∃ a, r = .ok a ∧ f a = .ok b := by
  cases r with
  | error e => cases h
  | ok a => exact ⟨a, rfl, h⟩

end

namespace Run

variable {α β : Type}

@[simp] theorem exec_pure (a : α) (w : World) : exec (pure a) w = (.ok a, w) := rfl

@[simp] theorem exec_result (r : Except Error α) (w : World) : exec (result r) w = (r, w) := rfl

@[simp] theorem exec_get (w : World) : exec (get : Run World) w = (.ok w, w) := rfl

@[simp] theorem exec_modify (f : World → World) (w : World) :
    exec (modify f : Run PUnit) w = (.ok ⟨⟩, f w) := rfl

@[simp] theorem exec_heap (w : World) : exec heap w = (.ok w.heap, w) := rfl

@[simp] theorem exec_onHeap (f : Heap → α × Heap) (w : World) :
    exec (onHeap f) w = (.ok (f w.heap).1, { w with heap := (f w.heap).2 }) := rfl

@[simp] theorem exec_report (entries : List LogEntry) (w : World) :
    exec (report entries) w = (.ok (), { w with log := w.log ++ entries }) := rfl

theorem exec_bind (x : Run α) (f : α → Run β) (w : World) :
    exec (x >>= f) w = match exec x w with
      | (.ok a, w) => exec (f a) w
      | (.error e, w) => (.error e, w) := by
  unfold exec
  simp only [ExceptT.run_bind, StateT.run_bind]
  cases (ExceptT.run x).run w with
  | mk r w =>
    cases r with
    | ok a => rfl
    | error e => rfl

/-- A computation that gives a result hands it on. -/
theorem exec_bind_ok {x : Run α} {f : α → Run β} {w w' : World} {a : α}
    (h : exec x w = (.ok a, w')) : exec (x >>= f) w = exec (f a) w' := by
  rw [exec_bind, h]

/-- A computation that fails is the end. -/
theorem exec_bind_error {x : Run α} {f : α → Run β} {w w' : World} {e : Error}
    (h : exec x w = (.error e, w')) : exec (x >>= f) w = (.error e, w') := by
  rw [exec_bind, h]

end Run

end Reckoner
