import Reckoner.Proofs.Kernels
import Reckoner.Proofs.Stored

/-!
# Computations that keep contexts well-formed

A computation is safe if, from contexts that are all well-formed, it only adds contexts and leaves
all of them well-formed, whether it succeeds or fails, and its result has a property that may
depend on how many contexts there are then. Safe computations put together are safe. Loading a
stored context or a file is safe whatever the bytes are.
-/

namespace Reckoner

/-- All contexts are well-formed. -/
abbrev Heap.Formed (h : Heap) : Prop := h.Regular Value.Proper 0

namespace Run

variable {α β : Type} {n m : Nat} {P Q : Nat → α → Prop} {w : World}

/-- What is asked of a run from a world. -/
structure Ends (w : World) (out : Except Error α × World) (P : Nat → α → Prop) : Prop where
  /-- No context is gone. -/
  count_le : w.heap.contexts.size ≤ out.2.heap.contexts.size
  /-- All contexts hold well-formed values. -/
  heap : out.2.heap.Formed
  /-- A result has the property for the contexts that there are afterwards. -/
  result : ∀ a, out.1 = .ok a → P out.2.heap.contexts.size a

/-- All runs with at least `n` contexts, all of them well-formed, are as asked. -/
def Safe (n : Nat) (x : Run α) (P : Nat → α → Prop) : Prop :=
  ∀ w : World, n ≤ w.heap.contexts.size → w.heap.Formed → Ends w (x.exec w) P

theorem ends_error {e : Error} (hw : w.heap.Formed) :
    Ends w ((.error e, w) : Except Error α × World) P :=
  ⟨le_rfl, hw, fun _ h => by cases h⟩

theorem Safe.later {x : Run α} (hx : Safe n x P) (hle : n ≤ m) : Safe m x P :=
  fun w hm hw => hx w (hle.trans hm) hw

theorem safe_pure {a : α} (ha : ∀ k, n ≤ k → P k a) : Safe n (pure a) P := fun _ hn hw =>
  ⟨le_rfl, hw, fun _ h => by cases h; exact ha _ hn⟩

theorem safe_throw {e : Error} : Safe n (throw e) P := fun _ _ hw => ends_error hw

theorem safe_result {r : Except Error α} (hr : ∀ a, r = .ok a → ∀ k, n ≤ k → P k a) :
    Safe n (result r) P := fun _ hn hw => ⟨le_rfl, hw, fun a ha => hr a ha _ hn⟩

/-- Checks are safe; what passes them is known to. -/
theorem safe_check (r : Except Error α) : Safe n (result r) fun _ a => r = .ok a :=
  safe_result fun _ h _ _ => h

theorem Safe.bind {x : Run α} {f : α → Run β} {Q : Nat → β → Prop} (hx : Safe n x P)
    (hf : ∀ a k, n ≤ k → P k a → Safe k (f a) Q) : Safe n (x >>= f) Q := by
  intro w hn hw
  have hends := hx w hn hw
  rw [exec_bind]
  cases hexec : x.exec w with
  | mk r w' =>
    rw [hexec] at hends
    cases r with
    | error e => exact ⟨hends.count_le, hends.heap, fun _ h => by cases h⟩
    | ok a =>
      have hnext := hf a _ (hn.trans hends.count_le) (hends.result a rfl) w' le_rfl hends.heap
      exact ⟨hends.count_le.trans hnext.count_le, hnext.heap, hnext.result⟩

/-- Going on with the heap, which is that of the world. -/
theorem safe_heap {f : Heap → Run β} {Q : Nat → β → Prop}
    (hf : ∀ h : Heap, n ≤ h.contexts.size → h.Formed → Safe h.contexts.size (f h) Q) :
    Safe n (heap >>= f) Q := fun w hn hw => by
  rw [exec_bind_ok (exec_heap w)]
  exact hf w.heap hn hw w le_rfl hw

theorem safe_get {f : World → Run β} {Q : Nat → β → Prop}
    (hf : ∀ w : World, n ≤ w.heap.contexts.size → w.heap.Formed →
      Safe w.heap.contexts.size (f w) Q) :
    Safe n (get >>= f) Q := fun w hn hw => by
  rw [exec_bind_ok (exec_get w)]
  exact hf w hn hw w le_rfl hw

theorem safe_onHeap {f : Heap → α × Heap}
    (hf : ∀ h : Heap, n ≤ h.contexts.size → h.Formed →
      h.contexts.size ≤ (f h).2.contexts.size ∧ (f h).2.Formed ∧ P (f h).2.contexts.size (f h).1) :
    Safe n (onHeap f) P := fun w hn hw =>
  have ⟨hle, hheap, hresult⟩ := hf w.heap hn hw
  ⟨hle, hheap, fun _ h => by cases h; exact hresult⟩

/-- What does not touch the heap is safe. -/
theorem safe_modify {f : World → World} (hf : ∀ w, (f w).heap = w.heap) :
    Safe n (modify f : Run PUnit) fun _ _ => True := fun w _ hw =>
  ⟨(congrArg (·.contexts.size) (hf w)).ge, by rw [exec_modify, hf]; exact hw, fun _ _ => trivial⟩

theorem safe_report (entries : List LogEntry) : Safe n (report entries) fun _ _ => True :=
  safe_modify fun _ => rfl

theorem safe_setVariable {c : ContextId} {name : Text} {v : Value} (hv : v.Formed n) :
    Safe n (onHeap fun h => ((), h.setVariable c name v)) fun _ _ => True :=
  safe_onHeap fun h hn hh =>
    ⟨(Heap.size_setVariable h c name v).ge, hh.setVariable name (hv.grow hn), trivial⟩

theorem safe_newContext :
    Safe n (onHeap fun h => h.newContext []) fun k c => (Value.context c).Formed k :=
  safe_onHeap fun h _ hh => by
    refine ⟨(Heap.grows_newContext h).size_le, hh.newContext, ?_⟩
    rw [Heap.fst_newContext, Heap.size_newContext]
    exact Value.every_context trivial (Nat.zero_le _) (Nat.lt_succ_self _)

end Run

namespace Heap

variable {h : Heap} {v : Value}

/-- The value of a variable that is found is well-formed. -/
theorem Regular.lookup (hh : h.Formed) {c : ContextId} {name : Text}
    (hv : h.lookup c name = some v) : v.Formed h.contexts.size := by
  obtain ⟨d, -, hd⟩ := List.exists_of_findSome?_eq_some hv
  exact (hh d (Nat.zero_le d)).every _ (mem_of_lookup hd)

/-- Removing variables one after another. -/
theorem Regular.clearVariables (hh : h.Formed) (c : ContextId) (names : List Text) :
    (names.foldl (fun h n => (h.clearVariable c n).2) h).contexts.size = h.contexts.size ∧
      (names.foldl (fun h n => (h.clearVariable c n).2) h).Formed := by
  induction names generalizing h with
  | nil => exact ⟨rfl, hh⟩
  | cons name names ih =>
    obtain ⟨hsize, hformed⟩ := ih (hh.clearVariable c name)
    exact ⟨hsize.trans (size_update h c _), hformed⟩

end Heap

/-! ### Readers -/

theorem Value.admits_proper : Value.Admits Value.Proper where
  leaf := fun {a} ha => by
    cases a with
    | matrix m => exact ⟨ha.1, ha.2.1, ha.2.2.2⟩
    | _ => trivial
  array := fun _ hkind => hkind
  list := fun _ => trivial
  context := fun _ => trivial
  object := fun _ _ => trivial

/-- Reading keeps all contexts well-formed, however it ends. -/
def Invariant.formed : Invariant := .added {} Value.admits_proper (fun _ => True) fun _ => trivial

theorem Invariant.heap_formed {h : Heap} : Invariant.formed.heap h ↔ h.Formed :=
  ⟨fun hh => hh.2, fun hh => ⟨⟨Nat.zero_le _, fun _ hc => absurd hc (Nat.not_lt_zero _)⟩, hh⟩⟩

/-- Reading a record adds contexts at most, all well-formed, and what it holds is well-formed. -/
theorem Reader.record_formed (r : Reader) {h : Heap} (hh : h.Formed) :
    Reading.Kept .formed r.decoder h (r.record.exec ⟨r.decoder, h⟩) Invariant.formed.datum :=
  (record_kept r (fun _ _ _ => trivial) (Invariant.heap_formed.mpr hh)).1

/-- Reading a value adds contexts at most, all well-formed, and the value is well-formed. -/
theorem Reader.nextValue_formed (r : Reader) {h : Heap} (hh : h.Formed) :
    h.contexts.size ≤ (r.nextValue h).2.2.contexts.size ∧ (r.nextValue h).2.2.Formed ∧
      ∀ v, (r.nextValue h).1 = .ok (some v) →
        v.Formed (r.nextValue h).2.2.contexts.size := by
  have hk := r.record_formed hh
  rw [nextValue_exec, readValue, Reading.exec_bind]
  cases hexec : r.record.exec ⟨r.decoder, h⟩ with
  | mk d cur =>
    rw [hexec] at hk
    have hheap := Invariant.heap_formed.mp hk.heap
    rcases d with e | (_ | (v | color))
    · exact ⟨hk.count_le, hheap, fun _ hv => by cases hv⟩
    · exact ⟨hk.count_le, hheap, fun _ hv => by cases hv⟩
    · exact ⟨hk.count_le, hheap, fun _ hv => by cases hv; exact hk.result _ rfl v rfl⟩
    · exact ⟨hk.count_le, hheap, fun _ hv => by cases hv⟩

namespace Global

open Run

variable {n : Nat}

/-- A new context is well-formed. -/
theorem newContext_ends {w₀ w : World} (hle : w₀.heap.contexts.size ≤ w.heap.contexts.size)
    (hw : w.heap.Formed) (log : List LogEntry) :
    Ends w₀ ((.ok w.heap.contexts.size, { w with log, heap := (w.heap.newContext []).2 }) :
      Except Error ContextId × World) fun k c => (Value.context c).Formed k := by
  refine ⟨hle.trans (Heap.grows_newContext w.heap).size_le, hw.newContext, fun c hc => ?_⟩
  cases hc
  show (Value.context w.heap.contexts.size).Formed (w.heap.newContext []).2.contexts.size
  rw [Heap.size_newContext]
  exact Value.every_context trivial (Nat.zero_le _) (Nat.lt_succ_self _)

theorem adopt_ends {w₀ w : World} {mode : Mode} {d : Except Error (Option Datum)}
    (hle : w₀.heap.contexts.size ≤ w.heap.contexts.size) (hw : w.heap.Formed)
    (hd : ∀ x, d = .ok x → Invariant.formed.datum w.heap.contexts.size x) :
    Ends w₀ (adopt mode w d) fun k c => (Value.context c).Formed k := by
  rcases d with e | (_ | (v | color))
  · exact ⟨hle, hw, fun _ h => by cases h⟩
  · exact newContext_ends hle hw w.log
  · cases v with
    | context c =>
      refine ⟨hle, hw, fun c' hc => ?_⟩
      cases hc
      exact hd _ rfl _ rfl
    | _ => exact ⟨hle, hw, fun _ h => by cases h⟩
  · exact ⟨hle, hw, fun _ h => by cases h⟩

/-- **Loading is safe**, whatever is stored. -/
theorem load_safe (g : Global) : Safe n g.load fun k c => (Value.context c).Formed k := by
  intro w hn hw
  rw [load_exec]
  cases g.slot.openRead w.storage with
  | error e =>
    dsimp only
    split
    · exact newContext_ends le_rfl hw _
    · exact ends_error hw
  | ok content =>
    dsimp only
    cases g.reader content with
    | error e => exact ends_error hw
    | ok r =>
      have hk := r.record_formed hw
      dsimp only
      rw [Reader.next_exec]
      exact adopt_ends hk.count_le (Invariant.heap_formed.mp hk.heap) hk.result

/-- Saving changes no context. -/
theorem save_safe (g : Global) (c : ContextId) : Safe n (g.save c) fun _ _ => True := by
  intro w hn hw
  rw [save_exec]
  cases g.encode w.heap c with
  | error e => exact ends_error hw
  | ok bytes =>
    dsimp only
    rcases g.slot.store bytes w.storage with ⟨(e | e) | _, storage⟩ <;>
      exact ⟨le_rfl, hw, fun _ _ => trivial⟩

theorem setVariable_safe (g : Global) (name : Text) {v : Value} (hv : v.Formed n) :
    Safe n (g.setVariable name v) fun _ _ => True :=
  g.load_safe.bind fun c _ hk _ => (safe_setVariable (hv.grow hk)).bind fun _ _ _ _ => g.save_safe c

theorem getVariable_safe (g : Global) (name : Text) :
    Safe n (g.getVariable name) fun k v => v.Formed k := by
  refine g.load_safe.bind fun c _ _ _ => safe_heap fun h _ hh => ?_
  cases hv : h.lookup c name with
  | none => exact safe_throw
  | some v => exact safe_pure fun _ hk => (hh.lookup hv).grow hk

theorem clear_safe (g : Global) (names : List Text) : Safe n (g.clear names) fun _ _ => True := by
  refine g.load_safe.bind fun c _ _ _ =>
    Safe.bind (P := fun _ _ => True) ?_ fun _ _ _ _ => g.save_safe c
  refine safe_onHeap fun h _ hh => ?_
  dsimp only
  split
  · exact ⟨(Heap.size_update h c _).ge, hh.clear c, trivial⟩
  · obtain ⟨hsize, hformed⟩ := hh.clearVariables c names
    exact ⟨hsize.ge, hformed, trivial⟩

end Global

end Reckoner
