import Mathlib.Tactic
import Reckoner.Proofs.Makers

/-!
# Well-formed values

A value is well-formed if everything that can be reached from it is: a matrix has its elements,
an array holds items of its kind, a context is one of the heap and its names differ. Contexts can
contain themselves, so this is no induction over values; but it follows from what holds inside of
sequences, `Value.Every`, if it holds of the variables of all contexts, `Heap.Regular`. That is
what the operations on contexts keep, and readers with them.
-/

namespace Reckoner

/-! ### Inside of sequences -/

/-- The property holds of the value and, if it is a sequence, of its items at every depth. -/
inductive Value.Every (p : Value → Prop) : Value → Prop where
  | intro {v : Value} : p v → (∀ items, v.items? = some items → ∀ w ∈ items, Every p w) → Every p v

namespace Value

variable {p q : Value → Prop} {v : Value} {elem : Kind} {items : List Value}

theorem Every.self (hv : v.Every p) : p v := by
  cases hv with
  | intro hp _ => exact hp

theorem Every.item {w : Value} (hv : v.Every p) (hitems : v.items? = some items) (hw : w ∈ items) :
    w.Every p := by
  cases hv with
  | intro _ hall => exact hall items hitems w hw

theorem Every.imp (hv : v.Every p) (h : ∀ w, p w → q w) : v.Every q := by
  induction hv with
  | intro hp _ ih => exact .intro (h _ hp) ih

theorem every_of_none (hitems : v.items? = none) (hp : p v) : v.Every p :=
  .intro hp fun _ h => by rw [hitems] at h; cases h

theorem every_array (hp : p (.array elem items)) (hitems : ∀ w ∈ items, w.Every p) :
    (array elem items).Every p :=
  .intro hp fun _ h => by cases h; exact hitems

theorem every_list (hp : p (.list items)) (hitems : ∀ w ∈ items, w.Every p) :
    (list items).Every p :=
  .intro hp fun _ h => by cases h; exact hitems

theorem items_leaf (a : Leaf) : a.value.items? = none := by
  cases a <;> rfl

/-- What is asked of a value itself and not of what it refers to. -/
def Proper : Value → Prop
  | .matrix m => 0 < m.rows ∧ 0 < m.cols ∧ m.data.length = m.rows * m.cols
  | .array elem items => ∀ v ∈ items, v.kind = elem
  | _ => True

/-- What is asked of a value of a stream in addition: a matrix is not too large, and an array has
a kind. -/
def Modest : Value → Prop
  | .matrix m => m.rows * m.cols ≤ 2 ^ 24
  | .array elem _ => elem ≠ .none
  | _ => True

/-- The property holds of the value, and a context is one of the numbers from `lo` to below `n`. -/
def Within (p : Value → Prop) (lo n : Nat) (v : Value) : Prop :=
  p v ∧ ∀ c, v = .context c → lo ≤ c ∧ c < n

theorem Within.grow {lo n m : Nat} (hv : v.Within p lo n) (hle : n ≤ m) : v.Within p lo m :=
  ⟨hv.1, fun c hc => ⟨(hv.2 c hc).1, (hv.2 c hc).2.trans_le hle⟩⟩

theorem Every.grow {lo n m : Nat} (hv : v.Every (Within p lo n)) (hle : n ≤ m) :
    v.Every (Within p lo m) := hv.imp fun _ hw => hw.grow hle

theorem every_context {c : ContextId} {lo n : Nat} (hp : p (.context c)) (hlo : lo ≤ c)
    (hn : c < n) : (context c).Every (Within p lo n) :=
  every_of_none rfl ⟨hp, fun d hd => by cases hd; exact ⟨hlo, hn⟩⟩

end Value

/-! ### Contexts -/

namespace Heap

variable {p : Value → Prop} {lo : Nat} {h : Heap} {c : ContextId}

/-- The names of a context differ, and its variables have the property at every depth. -/
structure RegularAt (p : Value → Prop) (lo : Nat) (h : Heap) (c : ContextId) : Prop where
  /-- Its names differ. -/
  nodup : (h.context c).names.Nodup
  /-- Its variables have the property at every depth, and refer to contexts that there are. -/
  every : ∀ b ∈ (h.context c).vars, b.2.Every (Value.Within p lo h.contexts.size)

/-- All contexts from number `lo` on are regular. -/
def Regular (p : Value → Prop) (lo : Nat) (h : Heap) : Prop := ∀ c, lo ≤ c → h.RegularAt p lo c

theorem regularAt_of_nil (hvars : (h.context c).vars = []) : h.RegularAt p lo c :=
  ⟨by rw [Context.names, hvars]; exact List.nodup_nil, fun _ hb => by rw [hvars] at hb; cases hb⟩

/-- A context that is as before stays regular in a heap that is not smaller. -/
theorem RegularAt.same {h' : Heap} (hc : h.RegularAt p lo c)
    (hvars : (h'.context c).vars = (h.context c).vars)
    (hsize : h.contexts.size ≤ h'.contexts.size) : h'.RegularAt p lo c :=
  ⟨by rw [Context.names, hvars]; exact hc.nodup,
    fun b hb => (hc.every b (hvars ▸ hb)).grow hsize⟩

/-- Changing a context keeps all contexts regular if it keeps that one regular. -/
theorem Regular.update (hh : h.Regular p lo) {f : Context → Context}
    (hf : lo ≤ c → c < h.contexts.size → (f (h.context c)).names.Nodup ∧
      ∀ b ∈ (f (h.context c)).vars, b.2.Every (Value.Within p lo h.contexts.size)) :
    (h.update c f).Regular p lo := by
  intro d hd
  by_cases hdc : d = c ∧ c < h.contexts.size
  · obtain ⟨rfl, hc⟩ := hdc
    have hctx := context_update hc f
    have hsize := size_update h d f
    obtain ⟨hnodup, hevery⟩ := hf hd hc
    exact ⟨by rw [hctx]; exact hnodup, by rw [hctx, hsize]; exact hevery⟩
  · refine (hh d hd).same ?_ (size_update h c f).ge
    rcases eq_or_ne d c with rfl | hne
    · rw [context_of_size_le (Nat.le_of_not_lt fun hc => hdc ⟨rfl, hc⟩), context_of_size_le]
      rw [size_update]
      exact Nat.le_of_not_lt fun hc => hdc ⟨rfl, hc⟩
    · rw [context_update_of_ne hne]

theorem Regular.setVariable (hh : h.Regular p lo) (name : Text) {v : Value}
    (hv : v.Every (Value.Within p lo h.contexts.size)) :
    (h.setVariable c name v).Regular p lo := by
  refine hh.update fun hlo _ => ⟨nodup_setIn (hh c hlo).nodup v, fun b hb => ?_⟩
  rcases mem_setIn hb with rfl | hb
  · exact hv
  · exact (hh c hlo).every b hb

theorem Regular.clear (hh : h.Regular p lo) (c : ContextId) : (h.clear c).Regular p lo :=
  hh.update fun _ _ => ⟨List.nodup_nil, fun _ hb => by cases hb⟩

theorem Regular.clearVariable (hh : h.Regular p lo) (c : ContextId) (name : Text) :
    (h.clearVariable c name).2.Regular p lo := by
  refine hh.update fun hlo _ => ⟨?_, fun b hb => (hh c hlo).every b (List.mem_filter.mp hb).1⟩
  exact (hh c hlo).nodup.sublist (List.filter_sublist.map _)

theorem Regular.newContext (hh : h.Regular p lo) : (h.newContext []).2.Regular p lo := fun d hd =>
  (hh d hd).same (by rw [context_newContext]) (grows_newContext h).size_le

/-- What is reached from a regular value is regular: it has the property at every depth, and if
it is a context then its names differ. -/
theorem Regular.reaches (hh : h.Regular p lo) {v w : Value}
    (hv : v.Every (Value.Within p lo h.contexts.size)) (hw : h.Reaches v w) :
    w.Every (Value.Within p lo h.contexts.size) := by
  induction hw with
  | refl => exact hv
  | tail _ hstep ih =>
    cases hstep with
    | array hmem => exact ih.item rfl hmem
    | list hmem => exact ih.item rfl hmem
    | var hmem => exact (hh _ (ih.self.2 _ rfl).1).every _ hmem

end Heap

/-! ### Readers -/

/-- The condition on values does not look into contexts and objects, and holds of what readers
make. -/
structure Value.Admits (p : Value → Prop) : Prop where
  /-- It holds of the leaves that readers make. -/
  leaf : ∀ {a : Leaf}, a.Formed → p a.value
  /-- It holds of an array whatever its items hold. -/
  array : ∀ {elem : Kind} {items : List Value}, elem ≠ .none → (∀ v ∈ items, v.kind = elem) →
    p (.array elem items)
  /-- It holds of every list. -/
  list : ∀ items, p (.list items)
  /-- It holds of every context. -/
  context : ∀ c, p (.context c)
  /-- It holds of every object. -/
  object : ∀ tag o, p (.object tag o)

/-- Readers leave the contexts of the heap `old` as they are and keep all others regular. -/
def Invariant.added (old : Heap) {p : Value → Prop} (hp : Value.Admits p) (error : Error → Prop)
    (malformed : ∀ {e : Error}, e.IsMalformed → error e) : Invariant where
  heap h := old.Grows h ∧ h.Regular p old.contexts.size
  value n v := v.Every (Value.Within p old.contexts.size n)
  error := error
  malformed := malformed
  grow := fun hv hle => hv.grow hle
  leaf := fun n a ha => by
    refine Value.every_of_none (Value.items_leaf a) ⟨hp.leaf ha, fun c hc => ?_⟩
    exact absurd hc (Leaf.value_ne_context a c)
  array := fun hne hkind hitems =>
    Value.every_array ⟨hp.array hne hkind, fun _ hc => by cases hc⟩ hitems
  list := fun hitems => Value.every_list ⟨hp.list _, fun _ hc => by cases hc⟩ hitems
  object := fun _ tag o => Value.every_of_none rfl ⟨hp.object tag o, fun _ hc => by cases hc⟩
  newContext := fun ⟨hold, hh⟩ => ⟨hold.trans (Heap.grows_newContext _), hh.newContext⟩
  context := fun ⟨hold, _⟩ => Value.every_context (hp.context _) hold.size_le (Nat.lt_succ_self _)
  clear := fun ⟨hold, hh⟩ hc =>
    ⟨Heap.Keeps.trans hold (Heap.keeps_update _ (hc.self.2 _ rfl).1 _) le_rfl, hh.clear _⟩
  setVariable := fun name _ ⟨hold, hh⟩ hc hv =>
    ⟨Heap.Keeps.trans hold (Heap.keeps_update _ (hc.self.2 _ rfl).1 _) le_rfl,
      hh.setVariable name hv⟩
  allocObject := fun _ ⟨hold, hh⟩ =>
    ⟨⟨hold.size_le, hold.same⟩, fun c hc => (hh c hc).same rfl le_rfl⟩

end Reckoner
