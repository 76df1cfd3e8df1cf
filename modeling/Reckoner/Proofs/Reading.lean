import Mathlib.Tactic
import Reckoner.Stream.Reader

/-!
# Running readers

What a reader does to the stream and the heap, as an equation for every way in which readers are
put together. The rest of the theory of reading never looks at how readers carry their state.
-/

namespace Reckoner

namespace Reading

variable {α β : Type}

/-- Runs a reader. -/
def exec (r : Reading α) (cur : Cursor) : Except Error α × Cursor := (ExceptT.run r).run cur

@[simp] theorem exec_pure (a : α) (cur : Cursor) : exec (pure a) cur = (.ok a, cur) := rfl

@[simp] theorem exec_step (f : Decoder → Step Decoder α) (cur : Cursor) :
    exec (step f) cur = ((f cur.decoder).1, ⟨(f cur.decoder).2, cur.heap⟩) := rfl

@[simp] theorem exec_result (r : Except Error α) (cur : Cursor) :
    exec (result r) cur = (r, cur) := rfl

@[simp] theorem exec_heap (cur : Cursor) : exec heap cur = (.ok cur.heap, cur) := rfl

@[simp] theorem exec_onHeap (f : Heap → α × Heap) (cur : Cursor) :
    exec (onHeap f) cur = (.ok (f cur.heap).1, ⟨cur.decoder, (f cur.heap).2⟩) := rfl

theorem exec_bind (x : Reading α) (f : α → Reading β) (cur : Cursor) :
    exec (x >>= f) cur = match exec x cur with
      | (.ok a, cur) => exec (f a) cur
      | (.error e, cur) => (.error e, cur) := by
  unfold exec
  simp only [ExceptT.run_bind, StateT.run_bind]
  cases (ExceptT.run x).run cur with
  | mk r cur =>
    cases r with
    | ok a => rfl
    | error e => rfl

/-- A reader that gives a result hands it on. -/
theorem exec_bind_ok {x : Reading α} {f : α → Reading β} {cur cur' : Cursor} {a : α}
    (h : exec x cur = (.ok a, cur')) : exec (x >>= f) cur = exec (f a) cur' := by
  rw [exec_bind, h]

/-- A reader that fails is the end. -/
theorem exec_bind_error {x : Reading α} {f : α → Reading β} {cur cur' : Cursor} {e : Error}
    (h : exec x cur = (.error e, cur')) : exec (x >>= f) cur = (.error e, cur') := by
  rw [exec_bind, h]

end Reading

/-! ### Blocks -/

theorem readFields_zero (read : RecordReader) (k : Nat) (cur : Cursor) :
    (readFields read 0 k).run cur = (([], none), cur) := rfl

theorem readFields_succ (read : RecordReader) (n k : Nat) (cur : Cursor) :
    (readFields read (n + 1) k).run cur = match Reading.exec (readField read k) cur with
      | (.error e, cur) => (([], some e), cur)
      | (.ok none, cur) => (([], none), cur)
      | (.ok (some f), cur) =>
        let more := (readFields read n (k + 1)).run cur
        ((f :: more.1.1, more.1.2), more.2) := by
  rw [readFields, Reading.exec]
  simp only [StateT.run_bind]
  cases (ExceptT.run (readField read k)).run cur with
  | mk r cur =>
    cases r with
    | error e => rfl
    | ok f =>
      cases f with
      | none => rfl
      | some f => rfl

/-- Reads the fields of a block that announces `d` as their number. -/
def readCounted (read : RecordReader) (d : Datum) (cur : Cursor) :
    (List Field × Option Error) × Cursor :=
  match d with
  | .value (.int n) =>
    if n < 0 then
      (([], some (malformed ("param count is " ++ Datum.shown cur.heap (some d)))), cur)
    else (readFields read n.toInt.toNat 0).run cur
  | _ => (([], some (malformed ("param count is " ++ Datum.shown cur.heap (some d)))), cur)

theorem readBlockPart_run (read : RecordReader) (cur : Cursor) :
    (readBlockPart read).run cur = match Reading.exec read cur with
      | (.error e, cur) => (([], some e), cur)
      | (.ok none, cur) => (([], none), cur)
      | (.ok (some d), cur) => readCounted read d cur := by
  unfold readBlockPart Reading.exec
  simp only [StateT.run_bind]
  cases (ExceptT.run read).run cur with
  | mk r cur =>
    cases r with
    | error e => rfl
    | ok d =>
      cases d with
      | none => rfl
      | some d =>
        cases d with
        | color c => rfl
        | value v =>
          cases v with
          | int n =>
            change StateT.run (if n < 0 then pure ([], some (malformed ("param count is "
              ++ Datum.shown cur.heap (some (.value (.int n)))))) else
                readFields read n.toInt.toNat 0) cur = readCounted read (.value (.int n)) cur
            unfold readCounted
            by_cases hn : n < 0
            · simp only [if_pos hn]
              rfl
            · simp only [if_neg hn]
          | _ => rfl

theorem readBlock_exec (read : RecordReader) (cur : Cursor) :
    Reading.exec (readBlock read) cur = match (readBlockPart read).run cur with
      | ((fields, none), cur) => (.ok fields, cur)
      | ((_, some e), cur) => (.error e, cur) := by
  have hlift : Reading.exec (liftM (readBlockPart read)) cur
      = (.ok ((readBlockPart read).run cur).1, ((readBlockPart read).run cur).2) := rfl
  unfold readBlock
  rw [Reading.exec_bind_ok hlift]
  cases (readBlockPart read).run cur with
  | mk part cur =>
    obtain ⟨fields, error⟩ := part
    cases error with
    | none => rfl
    | some e => rfl

/-! ### Values -/

/-- Reads a record as a value; nothing at the end of the stream. -/
def readValue (read : RecordReader) : Reading (Option Value) := do
  match ← read with
  | none => return none
  | d => return some (← requireDatumValue d)

theorem Reader.nextValue_exec (r : Reader) (h : Heap) :
    r.nextValue h = (((readValue r.record).exec ⟨r.decoder, h⟩).1,
      { r with decoder := ((readValue r.record).exec ⟨r.decoder, h⟩).2.decoder },
      ((readValue r.record).exec ⟨r.decoder, h⟩).2.heap) := rfl

end Reckoner
