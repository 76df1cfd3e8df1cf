import Reckoner.Proofs.OrderedMap

/-!
# Scopes

The operations on contexts, run one after another on three kinds of states: the contexts of a
heap, scopes that are ordered maps, and, elsewhere, contexts that keep a table and the order
apart. A state that agrees with another in every context goes on agreeing with it and answers
the same, so a run is no more than its steps.
-/

namespace Reckoner

/-! ### Operations -/

/-- An operation on the contexts that have been made so far. -/
inductive ContextOp where
  /-- A new context without a parent. -/
  | create (options : List (ContextOption Value))
  /-- A new context inside of another one. -/
  | child (c : ContextId) (options : List (ContextOption Value))
  /-- A copy of a context. -/
  | clone (c : ContextId) (options : List (ContextOption Value))
  /-- Sets a variable. -/
  | set (c : ContextId) (name : Text) (v : Value)
  /-- Removes a variable. -/
  | clearVar (c : ContextId) (name : Text)
  /-- Removes all variables. -/
  | clear (c : ContextId)

namespace ContextOp

/-- The context that an operation changes; a new context is none of those before. -/
def target : ContextOp → Option ContextId
  | set c _ _ => some c
  | clearVar c _ => some c
  | clear c => some c
  | _ => none

/-- What an operation answers. -/
inductive Answer where
  /-- Nothing but that it is done. -/
  | done
  /-- The number of the new context. -/
  | created (c : ContextId)
  /-- Whether the name was there. -/
  | found (b : Bool)

variable {σ τ : Type}

/-- Performs operations in order. -/
def run (perform : ContextOp → σ → Answer × σ) : List ContextOp → σ → List Answer × σ
  | [], s => ([], s)
  | op :: rest, s =>
    let (answer, s) := perform op s
    let (answers, s) := run perform rest s
    (answer :: answers, s)

/-- **Runs keep what steps keep**: if every operation answers the same in related states and
leaves related states, so does every run. -/
theorem run_related {perform : ContextOp → σ → Answer × σ} {perform' : ContextOp → τ → Answer × τ}
    {related : σ → τ → Prop}
    (hstep : ∀ op s t, related s t →
      (perform op s).1 = (perform' op t).1 ∧ related (perform op s).2 (perform' op t).2)
    (ops : List ContextOp) {s : σ} {t : τ} (hst : related s t) :
    (run perform ops s).1 = (run perform' ops t).1 ∧
      related (run perform ops s).2 (run perform' ops t).2 := by
  induction ops generalizing s t with
  | nil => exact ⟨rfl, hst⟩
  | cons op rest ih =>
    obtain ⟨hanswer, hnext⟩ := hstep op s t hst
    obtain ⟨hanswers, hlast⟩ := ih hnext
    exact ⟨congrArg₂ List.cons hanswer hanswers, hlast⟩

end ContextOp

/-- Performs an operation on the contexts of a heap. -/
def Heap.perform : ContextOp → Heap → ContextOp.Answer × Heap
  | .create options, h => let (c, h) := h.newContext options; (.created c, h)
  | .child c options, h => let (d, h) := h.child c options; (.created d, h)
  | .clone c options, h => let (d, h) := h.clone c options; (.created d, h)
  | .set c name v, h => (.done, h.setVariable c name v)
  | .clearVar c name, h => let (b, h) := h.clearVariable c name; (.found b, h)
  | .clear c, h => (.done, h.clear c)

/-! ### Scopes of ordered maps -/

/-- A scope: an ordered map with an enclosing scope. -/
structure Scope where
  parent : Option ContextId := none
  vars : OrderedMap := {}

namespace Scope

/-- Applies one option. -/
def apply (s : Scope) : ContextOption Value → Scope
  | .var name v => { s with vars := s.vars.set name v }
  | .vars bindings => { s with vars := s.vars.setAll (OrderedMap.byName bindings) }
  | .parent p => { s with parent := p }
  | .skip => s

/-- Applies options in order. -/
def applyAll (s : Scope) (options : List (ContextOption Value)) : Scope := options.foldl apply s

end Scope

/-- Scopes, numbered in the order of their creation. -/
abbrev Scopes := Array Scope

namespace Scopes

/-- Performs an operation on scopes. -/
def perform : ContextOp → Scopes → ContextOp.Answer × Scopes
  | .create options, s => (.created s.size, s.push (Scope.applyAll {} options))
  | .child c options, s =>
    (.created s.size, s.push (Scope.applyAll {} (.parent (some c) :: options)))
  | .clone c options, s => (.created s.size, s.push ((s[c]?.getD {}).applyAll options))
  | .set c name v, s => (.done, s.modify c fun sc => { sc with vars := sc.vars.set name v })
  | .clearVar c name, s =>
    (.found (s[c]?.any fun sc => name ∈ sc.vars.names),
      s.modify c fun sc => { sc with vars := sc.vars.erase name })
  | .clear c, s => (.done, s.modify c fun sc => { sc with vars := {} })

variable {s : Scopes} {op : ContextOp} {d : ContextId}

/-- **Only the target changes**: any other scope that was there is as it was. -/
theorem perform_of_ne (hd : d < s.size) (hne : op.target ≠ some d) :
    (perform op s).2[d]? = s[d]? := by
  cases op with
  | create options => exact (Array.getElem?_push_lt hd).trans (Array.getElem?_eq_getElem hd).symm
  | child c options => exact (Array.getElem?_push_lt hd).trans (Array.getElem?_eq_getElem hd).symm
  | clone c options => exact (Array.getElem?_push_lt hd).trans (Array.getElem?_eq_getElem hd).symm
  | set c name v => exact Array.getElem?_modify.trans (if_neg fun h => hne (congrArg some h))
  | clearVar c name => exact Array.getElem?_modify.trans (if_neg fun h => hne (congrArg some h))
  | clear c => exact Array.getElem?_modify.trans (if_neg fun h => hne (congrArg some h))

end Scopes

/-! ### The contexts of a heap -/

namespace Context

variable {ctx : Context} {sc : Scope}

/-- A context holds what a scope holds. -/
structure Agrees (ctx : Context) (sc : Scope) : Prop where
  /-- They have the same enclosing scope. -/
  parent : ctx.parent = sc.parent
  /-- They have the same variables, in the same order. -/
  vars : ctx.vars = sc.vars.entries

/-- Setting the first binding of a name sets it in the map: as the names differ, there is no other
one. -/
theorem setIn_eq (m : OrderedMap) (name : Text) (v : Value) :
    setIn name v m.entries = (m.set name v).entries := by
  by_cases h : name ∈ m.names
  · rw [OrderedMap.entries_set_of_mem h]
    obtain ⟨entries, hnodup⟩ := m
    have hmem : name ∈ entries.map (·.1) := h
    clear h
    show setIn name v entries = entries.map (OrderedMap.replace name v)
    induction entries with
    | nil => cases hmem
    | cons b rest ih =>
      obtain ⟨hb, hrest⟩ := List.nodup_cons.mp hnodup
      rw [setIn, List.map_cons, OrderedMap.replace]
      by_cases hname : b.1 = name
      · subst hname
        rw [if_pos rfl, if_pos rfl, OrderedMap.map_replace_of_notMem v hb]
      · rw [if_neg hname, if_neg hname,
          ih hrest ((List.mem_cons.mp hmem).resolve_left (Ne.symm hname))]
  · rw [OrderedMap.entries_set_of_notMem h]
    exact Heap.setIn_of_notMem h v

theorem Agrees.set (h : ctx.Agrees sc) (name : Text) (v : Value) :
    (ctx.set name v).Agrees { sc with vars := sc.vars.set name v } :=
  ⟨h.parent, by rw [Context.set, h.vars, setIn_eq]⟩

theorem Agrees.setAll (h : ctx.Agrees sc) (bindings : List (Text × Value)) :
    (bindings.foldl (fun ctx b => ctx.set b.1 b.2) ctx).Agrees
      { sc with vars := sc.vars.setAll bindings } := by
  induction bindings generalizing ctx sc with
  | nil => exact h
  | cons b rest ih => exact ih (h.set b.1 b.2)

theorem Agrees.apply (h : ctx.Agrees sc) (o : ContextOption Value) :
    (ctx.apply o).Agrees (sc.apply o) := by
  cases o with
  | var name v => exact h.set name v
  | vars bindings =>
    rw [Scope.apply, ← OrderedMap.sortBindings_eq]
    exact h.setAll (sortBindings bindings)
  | parent p => exact ⟨rfl, h.vars⟩
  | skip => exact h

theorem Agrees.applyAll (h : ctx.Agrees sc) (options : List (ContextOption Value)) :
    (ctx.applyAll options).Agrees (sc.applyAll options) := by
  induction options generalizing ctx sc with
  | nil => exact h
  | cons o rest ih => exact ih (h.apply o)

theorem Agrees.erase (h : ctx.Agrees sc) (name : Text) :
    (ctx.erase name).Agrees { sc with vars := sc.vars.erase name } :=
  ⟨h.parent, by rw [Context.erase, h.vars]; rfl⟩

theorem Agrees.clear (h : ctx.Agrees sc) : ctx.clear.Agrees { sc with vars := {} } :=
  ⟨h.parent, rfl⟩

theorem agrees_empty : Agrees {} {} := ⟨rfl, rfl⟩

end Context

namespace Heap

variable {h : Heap} {s : Scopes}

/-- Every context of the heap holds what the scope of its number holds. -/
structure Agrees (h : Heap) (s : Scopes) : Prop where
  /-- There are as many contexts as scopes. -/
  size : h.contexts.size = s.size
  /-- Each of them holds what its scope holds. -/
  context : ∀ c sc, s[c]? = some sc → (h.context c).Agrees sc

theorem Agrees.empty : Agrees {} #[] := ⟨rfl, fun c sc hc => by simp at hc⟩

theorem Agrees.alloc (hs : h.Agrees s) {ctx : Context} {sc : Scope} (hctx : ctx.Agrees sc) :
    (h.alloc ctx).2.Agrees (s.push sc) := by
  refine ⟨by simp [Heap.alloc, hs.size], fun c sc' hc => ?_⟩
  have hpush : (h.alloc ctx).2.context c = ((h.contexts.push ctx)[c]?).getD {} := rfl
  rw [hpush, Array.getElem?_push, hs.size]
  rw [Array.getElem?_push] at hc
  by_cases hlast : c = s.size
  · rw [if_pos hlast] at hc ⊢
    cases hc
    exact hctx
  · rw [if_neg hlast] at hc ⊢
    exact hs.context c sc' hc

theorem Agrees.update (hs : h.Agrees s) (c : ContextId) {f : Context → Context}
    {g : Scope → Scope} (hf : ∀ ctx sc, ctx.Agrees sc → (f ctx).Agrees (g sc)) :
    (h.update c f).Agrees (s.modify c g) := by
  refine ⟨by simp [Heap.update, hs.size], fun d sc' hd => ?_⟩
  rw [Array.getElem?_modify] at hd
  by_cases hcd : c = d
  · subst hcd
    rw [if_pos rfl] at hd
    obtain ⟨sc, hsc, rfl⟩ := Option.map_eq_some_iff.mp hd
    have hc : c < h.contexts.size := hs.size ▸ (Array.getElem?_eq_some_iff.mp hsc).1
    rw [context_update hc]
    exact hf _ _ (hs.context c sc hsc)
  · rw [if_neg hcd] at hd
    rw [context_update_of_ne (Ne.symm hcd)]
    exact hs.context d sc' hd

/-- The context of any number holds what the scope of the number holds; for numbers of none both
are empty. -/
theorem Agrees.getD (hs : h.Agrees s) (c : ContextId) : (h.context c).Agrees (s[c]?.getD {}) := by
  cases hc : s[c]? with
  | some sc => exact hs.context c sc hc
  | none =>
    rw [context_of_size_le (hs.size ▸ Array.getElem?_eq_none_iff.mp hc)]
    exact Context.agrees_empty

/-- **The contexts of a heap are ordered maps.** An operation answers the same on both and
leaves them agreeing. -/
theorem perform_agrees (op : ContextOp) (h : Heap) (s : Scopes) (hs : h.Agrees s) :
    (h.perform op).1 = (s.perform op).1 ∧ (h.perform op).2.Agrees (s.perform op).2 := by
  have hcreated : ContextOp.Answer.created h.contexts.size = .created s.size :=
    congrArg _ hs.size
  cases op with
  | create options => exact ⟨hcreated, hs.alloc (Context.agrees_empty.applyAll options)⟩
  | child c options =>
    exact ⟨hcreated, hs.alloc (Context.agrees_empty.applyAll (.parent (some c) :: options))⟩
  | clone c options =>
    have hctx : Context.Agrees { h.context c with listeners := [] } (s[c]?.getD {}) :=
      ⟨(hs.getD c).parent, (hs.getD c).vars⟩
    exact ⟨hcreated, hs.alloc (hctx.applyAll options)⟩
  | set c name v => exact ⟨rfl, hs.update c fun _ _ hctx => hctx.set name v⟩
  | clearVar c name =>
    refine ⟨congrArg ContextOp.Answer.found (Bool.eq_iff_iff.mpr ?_),
      hs.update c fun _ _ hctx => hctx.erase name⟩
    have hvars : (h.context c).get? name = (s[c]?.getD {}).vars.get? name := by
      rw [Context.get?, (hs.getD c).vars]
      rfl
    rw [hvars, OrderedMap.get?_isSome_iff]
    cases s[c]? with
    | some sc => simp
    | none => simp [OrderedMap.names]
  | clear c => exact ⟨rfl, hs.update c fun _ _ hctx => hctx.clear⟩

end Heap

end Reckoner
