import Mathlib.Tactic
import Reckoner.Proofs.Lookup
import Reckoner.Proofs.Snapshot

/-!
# Changing contexts

What the operations on contexts do to each context of the heap. Setting variables one after
another fills an empty context with them in order, if their names differ; all other contexts
stay as they are.
-/

namespace Reckoner

namespace Heap

variable {h h' h'' : Heap}

/-! ### One operation -/

@[simp] theorem size_update (h : Heap) (c : ContextId) (f : Context → Context) :
    (h.update c f).contexts.size = h.contexts.size := by
  simp [update]

@[simp] theorem size_setVariable (h : Heap) (c : ContextId) (name : Text) (v : Value) :
    (h.setVariable c name v).contexts.size = h.contexts.size := size_update h c _

@[simp] theorem size_clear (h : Heap) (c : ContextId) :
    (h.clear c).contexts.size = h.contexts.size := size_update h c _

theorem context_update_of_ne {c c' : ContextId} (hne : c' ≠ c) (f : Context → Context) :
    (h.update c f).context c' = h.context c' := by
  simp only [context, update]
  rw [Array.getElem?_modify, if_neg (Ne.symm hne)]

theorem context_update {c : ContextId} (hc : c < h.contexts.size) (f : Context → Context) :
    (h.update c f).context c = f (h.context c) := by
  simp only [context, update]
  rw [Array.getElem?_modify, if_pos rfl, Array.getElem?_eq_getElem hc]
  rfl

/-- Numbers of no context stand for an empty one. -/
theorem context_of_size_le {c : ContextId} (hc : h.contexts.size ≤ c) : h.context c = {} := by
  rw [context, Array.getElem?_eq_none hc]
  rfl

/-- What a change leaves alone in one context it leaves alone in all of them. -/
theorem map_context_update {β : Type} (part : Context → β) {f : Context → Context}
    (hf : ∀ ctx, part (f ctx) = part ctx) (h : Heap) (c d : ContextId) :
    part ((h.update c f).context d) = part (h.context d) := by
  by_cases hdc : d = c
  · subst hdc
    rcases Nat.lt_or_ge d h.contexts.size with hd | hd
    · rw [context_update hd, hf]
    · rw [context_of_size_le hd, context_of_size_le (by rwa [size_update])]
  · rw [context_update_of_ne hdc]

/-- What a change does to the variables of a context, if it makes none out of none. -/
theorem vars_update {f : Context → Context} {g : List (Text × Value) → List (Text × Value)}
    (hf : ∀ ctx, (f ctx).vars = g ctx.vars) (hnil : g [] = []) (h : Heap) (c : ContextId) :
    ((h.update c f).context c).vars = g (h.context c).vars := by
  rcases Nat.lt_or_ge c h.contexts.size with hc | hc
  · rw [context_update hc, hf]
  · rw [context_of_size_le hc, context_of_size_le (by rwa [size_update]), hnil]

theorem vars_clear (h : Heap) (c : ContextId) : ((h.clear c).context c).vars = [] :=
  vars_update (g := fun _ => []) (fun _ => rfl) rfl h c

theorem vars_clearVariable (h : Heap) (c : ContextId) (name : Text) :
    ((h.clearVariable c name).2.context c).vars =
      (h.context c).vars.filter fun b => b.1 ≠ name :=
  vars_update (fun _ => rfl) rfl h c

theorem context_newContext (h : Heap) (c : ContextId) :
    (h.newContext []).2.context c = h.context c := by
  have hpush : (h.newContext []).2.context c = ((h.contexts.push {})[c]?).getD {} := rfl
  rw [hpush, Array.getElem?_push]
  split
  · next heq =>
    subst heq
    rw [context_of_size_le le_rfl]
    rfl
  · rfl

@[simp] theorem size_newContext (h : Heap) (options : List (ContextOption Value)) :
    (h.newContext options).2.contexts.size = h.contexts.size + 1 := by
  simp [newContext, alloc]

@[simp] theorem fst_newContext (h : Heap) (options : List (ContextOption Value)) :
    (h.newContext options).1 = h.contexts.size := rfl

/-! ### Heaps that grow -/

/-- The contexts of the heap from number `lo` on. -/
def Since (h : Heap) (lo : Nat) (c : ContextId) : Prop := lo ≤ c ∧ c < h.contexts.size

/-- The first `lo` contexts of `h` are as they were, and none is gone. -/
structure Keeps (lo : Nat) (h h' : Heap) : Prop where
  /-- No context is gone. -/
  size_le : h.contexts.size ≤ h'.contexts.size
  /-- The old contexts are as they were. -/
  same : ∀ c, c < lo → h'.context c = h.context c

/-- The contexts of `h` are as they were. -/
abbrev Grows (h h' : Heap) : Prop := Keeps h.contexts.size h h'

theorem Keeps.refl (lo : Nat) (h : Heap) : Keeps lo h h := ⟨le_rfl, fun _ _ => rfl⟩

theorem Keeps.trans {lo lo' : Nat} (hk : Keeps lo h h') (hk' : Keeps lo' h' h'') (hlo : lo ≤ lo') :
    Keeps lo h h'' :=
  ⟨hk.size_le.trans hk'.size_le, fun c hc =>
    (hk'.same c (lt_of_lt_of_le hc hlo)).trans (hk.same c hc)⟩

theorem Grows.refl (h : Heap) : h.Grows h := Keeps.refl _ h

theorem Grows.trans (hg : h.Grows h') (hg' : h'.Grows h'') : h.Grows h'' :=
  Keeps.trans hg hg' hg.size_le

theorem grows_newContext (h : Heap) : h.Grows (h.newContext []).2 :=
  ⟨by rw [size_newContext]; exact Nat.le_succ _, fun c _ => context_newContext h c⟩

theorem keeps_update {lo : Nat} (h : Heap) {c : ContextId} (hc : lo ≤ c)
    (f : Context → Context) : Keeps lo h (h.update c f) :=
  ⟨(size_update h c f).ge, fun _ hd => context_update_of_ne (Nat.ne_of_lt (lt_of_lt_of_le hd hc)) f⟩

/-- What a value holds stays when the heap grows. -/
theorem Shows.grow {lo lo' : Nat} {v : Value} {s : Snapshot} (hs : h.Shows (h.Since lo) v s)
    (hg : h.Grows h') (hlo : lo' ≤ lo) : h'.Shows (h'.Since lo') v s :=
  hs.frame fun c hc =>
    ⟨⟨hlo.trans hc.1, lt_of_lt_of_le hc.2 hg.size_le⟩, by rw [hg.same c hc.2]⟩

/-! ### Many variables -/

/-- Sets variables in order. -/
def setAll (h : Heap) (c : ContextId) (vars : List (Text × Value)) : Heap :=
  vars.foldl (fun h b => h.setVariable c b.1 b.2) h

@[simp] theorem size_setAll (h : Heap) (c : ContextId) (vars : List (Text × Value)) :
    (h.setAll c vars).contexts.size = h.contexts.size := by
  induction vars generalizing h with
  | nil => rfl
  | cons b vars ih => exact (ih _).trans (size_setVariable h c _ _)

theorem context_setAll_of_ne {c c' : ContextId} (hne : c' ≠ c) (h : Heap)
    (vars : List (Text × Value)) : (h.setAll c vars).context c' = h.context c' := by
  induction vars generalizing h with
  | nil => rfl
  | cons b vars ih => exact (ih _).trans (context_update_of_ne hne _)

/-- A new name goes last. -/
theorem setIn_of_notMem {name : Text} {vars : List (Text × Value)}
    (hname : name ∉ vars.map (·.1)) (v : Value) :
    Context.setIn name v vars = vars ++ [(name, v)] := by
  induction vars with
  | nil => rfl
  | cons b vars ih =>
    rw [List.map_cons, List.mem_cons, not_or] at hname
    rw [Context.setIn, if_neg (Ne.symm hname.1), ih hname.2, List.cons_append]

/-- A variable is the one that was set or one of those before. -/
theorem mem_setIn {name : Text} {v : Value} {vars : List (Text × Value)} {b : Text × Value}
    (hb : b ∈ Context.setIn name v vars) : b = (name, v) ∨ b ∈ vars := by
  induction vars with
  | nil => exact .inl (List.mem_singleton.mp hb)
  | cons a vars ih =>
    rw [Context.setIn] at hb
    split at hb
    · next heq =>
      rcases List.mem_cons.mp hb with rfl | hb
      · exact .inl (by rw [heq])
      · exact .inr (List.mem_cons_of_mem _ hb)
    · rcases List.mem_cons.mp hb with rfl | hb
      · exact .inr List.mem_cons_self
      · exact (ih hb).imp_right (List.mem_cons_of_mem _)

/-- A variable that is set is there. -/
theorem mem_setIn_self (name : Text) (v : Value) (vars : List (Text × Value)) :
    (name, v) ∈ Context.setIn name v vars := by
  induction vars with
  | nil => exact List.mem_singleton_self _
  | cons b vars ih =>
    rw [Context.setIn]
    split
    · next heq => exact heq ▸ List.mem_cons_self
    · exact List.mem_cons_of_mem _ ih

/-- A name that is there stays in its place. -/
theorem names_setIn_of_mem {name : Text} {vars : List (Text × Value)}
    (hname : name ∈ vars.map (·.1)) (v : Value) :
    (Context.setIn name v vars).map (·.1) = vars.map (·.1) := by
  induction vars with
  | nil => cases hname
  | cons b vars ih =>
    rw [Context.setIn]
    split
    · rfl
    · next hne =>
      have hrest : name ∈ vars.map (·.1) := (List.mem_cons.mp hname).resolve_left (Ne.symm hne)
      rw [List.map_cons, ih hrest, List.map_cons]

theorem nodup_setIn {name : Text} {vars : List (Text × Value)} (hvars : (vars.map (·.1)).Nodup)
    (v : Value) : ((Context.setIn name v vars).map (·.1)).Nodup := by
  by_cases hname : name ∈ vars.map (·.1)
  · rwa [names_setIn_of_mem hname]
  · rw [setIn_of_notMem hname, List.map_append, List.nodup_append]
    refine ⟨hvars, List.nodup_singleton _, fun a ha b hb => ?_⟩
    rintro rfl
    obtain rfl : a = name := List.mem_singleton.mp hb
    exact hname ha

/-- Variables with new names go last, in order. -/
theorem vars_setAll {c : ContextId} (hc : c < h.contexts.size) {vars : List (Text × Value)}
    (hnames : (((h.context c).vars ++ vars).map (·.1)).Nodup) :
    ((h.setAll c vars).context c).vars = (h.context c).vars ++ vars := by
  induction vars generalizing h with
  | nil => simp [setAll]
  | cons b vars ih =>
    have hset : ((h.setVariable c b.1 b.2).context c).vars = (h.context c).vars ++ [b] := by
      rw [setVariable, context_update hc]
      refine setIn_of_notMem ?_ b.2
      rw [List.map_append, List.map_cons] at hnames
      exact fun hmem => (List.nodup_append.mp hnames).2.2 _ hmem _ List.mem_cons_self rfl
    have hstep := ih (h := h.setVariable c b.1 b.2) (by rwa [size_setVariable])
      (by rwa [hset, List.append_assoc, List.singleton_append])
    rw [hset, List.append_assoc, List.singleton_append] at hstep
    exact hstep

end Heap

/-- A property of results that is kept when contexts are added. -/
def Stable {α : Type} (P : Nat → Heap → α → Prop) : Prop :=
  ∀ lo lo' h h' a, P lo h a → lo' ≤ lo → h.Grows h' → P lo' h' a

theorem stable_const {α : Type} (P : α → Prop) : Stable fun _ _ a => P a :=
  fun _ _ _ _ _ h _ _ => h

end Reckoner
