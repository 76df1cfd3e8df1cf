import Mathlib.Tactic
import Reckoner.Proofs.Contexts
import Reckoner.Proofs.Reading
import Reckoner.Proofs.Steps

/-!
# Readers of any bytes

What holds of the readers of values whatever the bytes are. Readers change contexts in three ways
only: they make a context, clear one that they have made, and set a variable of one to a value
that they have read. So they keep every invariant of the heap that these three keep, together
with a property of values that passes from the parts to the whole.

The rules here are about readers put together and about blocks. Properties of results may depend
on how many contexts there are; what has been shown of a result stays true because contexts are
only added.
-/

namespace Reckoner

/-- A matrix has as many elements as its dimensions say, and not too many. -/
def Leaf.Formed : Leaf → Prop
  | matrix m =>
    0 < m.rows ∧ 0 < m.cols ∧ m.rows * m.cols ≤ 2 ^ 24 ∧ m.data.length = m.rows * m.cols
  | _ => True

/-- What readers keep: an invariant of the heap, a property of values when there are so many
contexts, and what can be said of failures. -/
structure Invariant where
  /-- What holds of the heap. -/
  heap : Heap → Prop
  /-- What holds of values when there are so many contexts. -/
  value : Nat → Value → Prop
  /-- The failures that are allowed. -/
  error : Error → Prop
  /-- Values keep the property when contexts are added. -/
  grow : ∀ {n m : Nat} {v : Value}, value n v → n ≤ m → value m v
  /-- A reader may always refuse a malformed stream. -/
  malformed : ∀ {e : Error}, e.IsMalformed → error e
  /-- Leaves that readers make have the property. -/
  leaf : ∀ (n : Nat) {a : Leaf}, a.Formed → value n a.value
  /-- So do arrays of items that have it. -/
  array : ∀ {n : Nat} {elem : Kind} {items : List Value}, elem ≠ .none →
    (∀ v ∈ items, v.kind = elem) → (∀ v ∈ items, value n v) → value n (.array elem items)
  /-- So do lists of items that have it. -/
  list : ∀ {n : Nat} {items : List Value}, (∀ v ∈ items, value n v) → value n (.list items)
  /-- So do objects. -/
  object : ∀ (n : Nat) (tag : Text) (o : ObjectId), value n (.object tag o)
  /-- An empty context may be added. -/
  newContext : ∀ {h : Heap}, heap h → heap (h.newContext []).2
  /-- The context that was added last has the property. -/
  context : ∀ {h : Heap}, heap h → value (h.contexts.size + 1) (.context h.contexts.size)
  /-- A context with the property may be emptied. -/
  clear : ∀ {h : Heap} {c : ContextId}, heap h → value h.contexts.size (.context c) →
    heap (h.clear c)
  /-- Its variables may be set to values with the property. -/
  setVariable : ∀ {h : Heap} {c : ContextId} (name : Text) {v : Value}, heap h →
    value h.contexts.size (.context c) → value h.contexts.size v → heap (h.setVariable c name v)
  /-- An object may be added. -/
  allocObject : ∀ {h : Heap} (o : Object), heap h → heap (h.allocObject o).2

/-- Whatever a record holds, if it is a value then it has the property. -/
def Invariant.datum (inv : Invariant) (n : Nat) (d : Option Datum) : Prop :=
  ∀ v, d = some (.value v) → inv.value n v

/-- So do all fields. -/
def Invariant.fields (inv : Invariant) (n : Nat) (gs : List Field) : Prop :=
  ∀ f ∈ gs, inv.datum n f.value

theorem Invariant.datum_grow (inv : Invariant) {n m : Nat} {d : Option Datum}
    (hd : inv.datum n d) (hle : n ≤ m) : inv.datum m d := fun v hv => inv.grow (hd v hv) hle

namespace Reading

variable {α β : Type} {inv : Invariant} {n lo : Nat}

/-! ### Readers put together -/

/-- What is asked of a run: nothing is gained, contexts are only added, the invariant holds, and
the run ends with an error that is allowed or with a result that has the property `P`. -/
structure Kept (inv : Invariant) (d : Decoder) (h : Heap) (out : Except Error α × Cursor)
    (P : Nat → α → Prop) : Prop where
  /-- No more is left than there was. -/
  size_le : out.2.decoder.size ≤ d.size
  /-- No context is gone. -/
  count_le : h.contexts.size ≤ out.2.heap.contexts.size
  /-- The invariant holds afterwards, also behind a failure. -/
  heap : inv.heap out.2.heap
  /-- An error is one that is allowed. -/
  failure : ∀ e, out.1 = .error e → inv.error e
  /-- A result has the property for the contexts that there are afterwards. -/
  result : ∀ a, out.1 = .ok a → P out.2.heap.contexts.size a

/-- All runs of the reader on at most `n` bytes, or lines, with at least `lo` contexts are as
asked. -/
def Sound (inv : Invariant) (n lo : Nat) (x : Reading α) (P : Nat → α → Prop) : Prop :=
  ∀ d h, d.size ≤ n → lo ≤ h.contexts.size → inv.heap h → Kept inv d h (x.exec ⟨d, h⟩) P

/-- No property. -/
abbrev Anything (_ : Nat) (_ : α) : Prop := True

theorem Sound.later {x : Reading α} {P : Nat → α → Prop} {lo' : Nat} (hx : Sound inv n lo x P)
    (hle : lo ≤ lo') : Sound inv n lo' x P := fun d h hd hlo hh => hx d h hd (hle.trans hlo) hh

theorem sound_pure {P : Nat → α → Prop} {a : α} (hP : ∀ m, lo ≤ m → P m a) :
    Sound inv n lo (pure a) P := fun _ _ _ hlo hh =>
  ⟨le_rfl, le_rfl, hh, fun _ he => (by cases he), fun _ ha => (by cases ha; exact hP _ hlo)⟩

theorem sound_throw {P : Nat → α → Prop} {e : Error} (he : inv.error e) :
    Sound inv n lo (throw e) P := fun _ _ _ _ hh =>
  ⟨le_rfl, le_rfl, hh, fun _ he' => (by cases he'; exact he), fun _ ha => (by cases ha)⟩

theorem sound_malformed {P : Nat → α → Prop} (message : Text) :
    Sound inv n lo (throw (Reckoner.malformed message)) P :=
  sound_throw (inv.malformed (isMalformed_malformed message))

theorem sound_result {r : Except Error α} (hr : ∀ e, r = .error e → inv.error e) :
    Sound inv n lo (result r) fun _ a => r = .ok a :=
  fun _ _ _ _ hh => ⟨le_rfl, le_rfl, hh, hr, fun _ ha => ha⟩

theorem sound_step {f : Decoder → Step Decoder α}
    (hf : ∀ d : Decoder, d.size ≤ n → (f d).Tame Decoder.size d.size) :
    Sound inv n lo (step f) Anything := fun d _ hd _ hh =>
  ⟨(hf d hd).size_le, le_rfl, hh, fun e he => inv.malformed ((hf d hd).failure e he),
    fun _ _ => trivial⟩

theorem sound_heap {P : Nat → α → Prop} {f : Heap → Reading α}
    (hf : ∀ h, Sound inv n lo (f h) P) : Sound inv n lo (heap >>= f) P := by
  intro d h hd hlo hh
  rw [exec_bind_ok (exec_heap _)]
  exact hf h d h hd hlo hh

theorem sound_onHeap {P : Nat → α → Prop} {f : Heap → α × Heap}
    (hf : ∀ h, lo ≤ h.contexts.size → inv.heap h → h.contexts.size ≤ (f h).2.contexts.size ∧
      inv.heap (f h).2 ∧ P (f h).2.contexts.size (f h).1) :
    Sound inv n lo (onHeap f) P := fun _ h _ hlo hh =>
  have ⟨hle, hheap, hresult⟩ := hf h hlo hh
  ⟨le_rfl, hle, hheap, fun _ he => (by cases he), fun _ ha => (by cases ha; exact hresult)⟩

/-- One reader after another: what holds of the result of the first one when it ends still holds
while the second one runs. -/
theorem Sound.bind {x : Reading α} {f : α → Reading β} {P : Nat → α → Prop}
    {Q : Nat → β → Prop} (hx : Sound inv n lo x P)
    (hf : ∀ a m, lo ≤ m → P m a → Sound inv n m (f a) Q) : Sound inv n lo (x >>= f) Q := by
  intro d h hd hlo hh
  have hk := hx d h hd hlo hh
  rw [exec_bind]
  cases hexec : x.exec ⟨d, h⟩ with
  | mk r cur =>
    rw [hexec] at hk
    cases r with
    | error e =>
      exact ⟨hk.size_le, hk.count_le, hk.heap, fun _ he => (by cases he; exact hk.failure e rfl),
        fun _ ha => (by cases ha)⟩
    | ok a =>
      have hk' := hf a _ (hlo.trans hk.count_le) (hk.result a rfl) cur.decoder cur.heap
        (hk.size_le.trans hd) le_rfl hk.heap
      exact ⟨hk'.size_le.trans hk.size_le, hk.count_le.trans hk'.count_le, hk'.heap, hk'.failure,
        hk'.result⟩

/-- One reader after another, of which the first one's result does not depend on the heap. -/
theorem Sound.seq {x : Reading α} {f : α → Reading β} {P : α → Prop} {Q : Nat → β → Prop}
    (hx : Sound inv n lo x fun _ a => P a) (hf : ∀ a, P a → Sound inv n lo (f a) Q) :
    Sound inv n lo (x >>= f) Q :=
  hx.bind fun a _ hm ha => (hf a ha).later hm

end Reading

open Reading (Sound Kept Anything sound_pure sound_throw sound_malformed sound_result sound_heap
  sound_onHeap)

/-! ### Blocks -/

variable {inv : Invariant} {read : RecordReader} {n lo : Nat}

/-- A reader of records that gives values with the property. -/
abbrev ReadsSoundly (inv : Invariant) (n : Nat) (read : RecordReader) : Prop :=
  Sound inv n 0 read inv.datum

theorem readLabel_sound (hread : ReadsSoundly inv n read) (what : Text) :
    Sound inv n lo (readLabel read what) Anything := by
  refine (hread.later (Nat.zero_le lo)).bind fun d m _ _ => ?_
  split
  · exact sound_pure fun _ _ => trivial
  · exact sound_pure fun _ _ => trivial
  · exact sound_heap fun h => sound_malformed _

theorem readField_sound (hread : ReadsSoundly inv n read) (k : Nat) :
    Sound inv n lo (readField read k) fun m g => ∀ f, g = some f → inv.datum m f.value := by
  refine (hread.later (Nat.zero_le lo)).bind fun d m _ hd => ?_
  split
  · exact sound_pure fun _ _ f hf => by cases hf
  · refine (readLabel_sound hread _).seq fun name _ => ?_
    refine (readLabel_sound hread _).seq fun comment _ => ?_
    exact sound_pure fun k hk f hf => by
      cases hf
      exact inv.datum_grow hd hk

/-- What is asked of reading fields, which keeps those in front of an error. -/
structure KeptFields (inv : Invariant) (d : Decoder) (h : Heap)
    (out : (List Field × Option Error) × Cursor) : Prop where
  /-- No more is left than there was. -/
  size_le : out.2.decoder.size ≤ d.size
  /-- No context is gone. -/
  count_le : h.contexts.size ≤ out.2.heap.contexts.size
  /-- The invariant holds afterwards. -/
  heap : inv.heap out.2.heap
  /-- An error is one that is allowed. -/
  failure : ∀ e, out.1.2 = some e → inv.error e
  /-- What the fields hold has the property. -/
  fields : inv.fields out.2.heap.contexts.size out.1.1

variable {d : Decoder} {h : Heap}

theorem keptFields_nil (cur : Cursor) {error : Option Error} (hsize : cur.decoder.size ≤ d.size)
    (hcount : h.contexts.size ≤ cur.heap.contexts.size) (hh : inv.heap cur.heap)
    (he : ∀ e, error = some e → inv.error e) : KeptFields inv d h (([], error), cur) :=
  ⟨hsize, hcount, hh, he, fun _ hf => by cases hf⟩

/-- Fields that are read after others. -/
theorem KeptFields.after {out : (List Field × Option Error) × Cursor} {cur : Cursor}
    (hout : KeptFields inv cur.decoder cur.heap out) (hsize : cur.decoder.size ≤ d.size)
    (hcount : h.contexts.size ≤ cur.heap.contexts.size) : KeptFields inv d h out :=
  ⟨hout.size_le.trans hsize, hcount.trans hout.count_le, hout.heap, hout.failure, hout.fields⟩

/-- Fields are read soundly, each one from where the one before it ends. -/
theorem readFields_kept (hread : ReadsSoundly inv n read) (count k : Nat) (hd : d.size ≤ n)
    (hh : inv.heap h) : KeptFields inv d h ((readFields read count k).run ⟨d, h⟩) := by
  induction count generalizing k d h with
  | zero =>
    rw [readFields_zero]
    exact keptFields_nil ⟨d, h⟩ le_rfl le_rfl hh fun _ he => by cases he
  | succ count ih =>
    have hk := readField_sound hread k d h hd le_rfl hh
    rw [readFields_succ]
    cases hexec : (readField read k).exec ⟨d, h⟩ with
    | mk r cur =>
      rw [hexec] at hk
      rcases r with e | (_ | g)
      · exact keptFields_nil cur hk.size_le hk.count_le hk.heap fun _ he => by
          cases he
          exact hk.failure e rfl
      · exact keptFields_nil cur hk.size_le hk.count_le hk.heap fun _ he => by cases he
      · have hrest := ih (k + 1) (hk.size_le.trans hd) hk.heap
        have hfirst : inv.datum cur.heap.contexts.size g.value := hk.result _ rfl _ rfl
        exact ⟨hrest.size_le.trans hk.size_le, hk.count_le.trans hrest.count_le, hrest.heap,
          hrest.failure, List.forall_mem_cons.mpr ⟨inv.datum_grow hfirst hrest.count_le,
            hrest.fields⟩⟩

theorem readCounted_kept (hread : ReadsSoundly inv n read) (x : Datum) (hd : d.size ≤ n)
    (hh : inv.heap h) : KeptFields inv d h (readCounted read x ⟨d, h⟩) := by
  have hrefused : ∀ message, KeptFields inv d h (([], some (malformed message)), ⟨d, h⟩) :=
    fun _ => keptFields_nil ⟨d, h⟩ le_rfl le_rfl hh fun _ he => by
      cases he
      exact inv.malformed (isMalformed_malformed _)
  unfold readCounted
  split
  · split
    · exact hrefused _
    · exact readFields_kept hread _ 0 hd hh
  · exact hrefused _

theorem readBlockPart_kept (hread : ReadsSoundly inv n read) (hd : d.size ≤ n)
    (hh : inv.heap h) : KeptFields inv d h ((readBlockPart read).run ⟨d, h⟩) := by
  have hk := hread d h hd (Nat.zero_le _) hh
  rw [readBlockPart_run]
  cases hexec : read.exec ⟨d, h⟩ with
  | mk r cur =>
    rw [hexec] at hk
    rcases r with e | (_ | x)
    · exact keptFields_nil cur hk.size_le hk.count_le hk.heap fun _ he => by
        cases he
        exact hk.failure e rfl
    · exact keptFields_nil cur hk.size_le hk.count_le hk.heap fun _ he => by cases he
    · exact (readCounted_kept hread x (hk.size_le.trans hd) hk.heap).after hk.size_le hk.count_le

theorem readBlock_sound (hread : ReadsSoundly inv n read) :
    Sound inv n lo (readBlock read) inv.fields := by
  intro d h hd _ hh
  have hpart := readBlockPart_kept hread hd hh
  rw [readBlock_exec]
  cases hrun : (readBlockPart read).run ⟨d, h⟩ with
  | mk part cur =>
    rw [hrun] at hpart
    obtain ⟨fields, error⟩ := part
    cases error with
    | none =>
      exact ⟨hpart.size_le, hpart.count_le, hpart.heap, fun _ he => (by cases he),
        fun _ ha => (by cases ha; exact hpart.fields)⟩
    | some e =>
      exact ⟨hpart.size_le, hpart.count_le, hpart.heap,
        fun _ he => (by cases he; exact hpart.failure e rfl), fun _ ha => (by cases ha)⟩

/-- A field is missing, holds what is wanted, or holds something else. -/
theorem Field.isMalformed_read {α : Type} {h : Heap} {want : Text} {default : α}
    {view : Option Datum → Option α} {fields : List Field} {index : Nat} {e : Error}
    (he : Field.read h want default view fields index = .error e) : e.IsMalformed := by
  unfold Field.read at he
  split at he
  · cases he
  · split at he
    · cases he
    · cases he
      exact isMalformed_malformed _

/-- What a field holds is taken as it is. -/
theorem sound_field {α : Type} {h : Heap} {want : Text} {default : α}
    {view : Option Datum → Option α} {fields : List Field} {index : Nat} :
    Sound inv n lo (Reading.result (Field.read h want default view fields index)) Anything :=
  fun d h hd hlo hh =>
    have hk := sound_result (fun _ he => inv.malformed (Field.isMalformed_read he)) d h hd hlo hh
    ⟨hk.size_le, hk.count_le, hk.heap, hk.failure, fun _ _ => trivial⟩

end Reckoner
