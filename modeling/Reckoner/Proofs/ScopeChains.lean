import Mathlib.Tactic
import Reckoner.Proofs.Makers
import Reckoner.Proofs.Scopes

/-!
# Scope chains

A host makes contexts, changes their variables, registers listeners and fills contexts from
streams. Whatever it does and in whatever order, a context gets its parent when it is made, so
the parent is an older context, and no later operation changes it. This is the invariant
(`Heap.Layered`): parents have smaller numbers than what they enclose. It follows that the scopes
around a context are a finite chain without repetition, and that a look-up, which goes along the
chain, ends with the value of the nearest variable of the name.
-/

namespace Reckoner

/-! ### Operations of a host -/

/-- The scopes that options give as a parent. -/
def ContextOption.parents {α : Type} (options : List (ContextOption α)) : List ContextId :=
  options.filterMap fun
    | .parent p => p
    | _ => none

/-- The contexts that an operation refers to. -/
def ContextOp.refs : ContextOp → List ContextId
  | create options => ContextOption.parents options
  | child c options => c :: ContextOption.parents options
  | clone c options => c :: ContextOption.parents options
  | set c _ _ => [c]
  | clearVar c _ => [c]
  | clear c => [c]

/-- An operation of a host. -/
inductive ScopeOp where
  /-- Makes a context or changes variables. -/
  | change (op : ContextOp)
  /-- Registers a listener. -/
  | listen (c : ContextId) (label : Text)
  /-- Replaces the variables of a context by those that a stream holds. -/
  | fill (c : ContextId) (r : Reader)
  /-- Reads the next value of a stream and makes the contexts in it. -/
  | read (r : Reader)

namespace ScopeOp

/-- The contexts that an operation refers to. -/
def refs : ScopeOp → List ContextId
  | change op => op.refs
  | listen c _ => [c]
  | fill c _ => [c]
  | read _ => []

/-- The listener that an operation registers on a context. -/
def registers (c : ContextId) : ScopeOp → Option Text
  | listen d label => if d = c then some label else none
  | _ => none

/-- Performs an operation. -/
def perform : ScopeOp → Heap → Heap
  | change op, h => (h.perform op).2
  | listen c label, h => h.listen c label
  | fill c r, h => (r.nextContext h c).2.2
  | read r, h => (r.next h).2.2

end ScopeOp

/-- The operations, each of which refers to contexts that there are by then only, lead from no
context to the heap. -/
inductive Reached : List ScopeOp → Heap → Prop
  /-- No operation has been done. -/
  | start : Reached [] {}
  /-- One more operation is done. -/
  | step {ops : List ScopeOp} {h : Heap} (op : ScopeOp) : Reached ops h →
    (∀ d ∈ op.refs, d < h.contexts.size) → Reached (ops ++ [op]) (op.perform h)

/-- The labels of the listeners that operations register on a context, in order. -/
def registered (ops : List ScopeOp) (c : ContextId) : List Text :=
  ops.filterMap (·.registers c)

/-! ### Parents and listeners of one context -/

namespace Context

/-- What outlives the variables of a context. -/
def links (ctx : Context) : Option ContextId × List Text := (ctx.parent, ctx.listeners)

theorem links_setAll (ctx : Context) (bindings : List (Text × Value)) :
    (bindings.foldl (fun ctx b => ctx.set b.1 b.2) ctx).links = ctx.links := by
  induction bindings generalizing ctx with
  | nil => rfl
  | cons b rest ih => exact ih (ctx.set b.1 b.2)

theorem listeners_apply (ctx : Context) (o : ContextOption Value) :
    (ctx.apply o).listeners = ctx.listeners := by
  cases o with
  | vars bindings => exact congrArg Prod.snd (links_setAll ctx _)
  | _ => rfl

@[simp] theorem listeners_applyAll (ctx : Context) (options : List (ContextOption Value)) :
    (ctx.applyAll options).listeners = ctx.listeners := by
  induction options generalizing ctx with
  | nil => rfl
  | cons o rest ih => exact (ih _).trans (listeners_apply ctx o)

/-- Options leave the parent alone, or one of them gives it. -/
theorem parent_applyAll (ctx : Context) (options : List (ContextOption Value)) {p : ContextId}
    (hp : (ctx.applyAll options).parent = some p) :
    ctx.parent = some p ∨ p ∈ ContextOption.parents options := by
  induction options generalizing ctx with
  | nil => exact .inl hp
  | cons o rest ih =>
    rcases ih (ctx.apply o) hp with hctx | hrest
    · cases o with
      | parent q =>
        have hq : q = some p := hctx
        subst hq
        exact .inr (by simp [ContextOption.parents])
      | vars bindings =>
        have hlinks := congrArg Prod.fst (links_setAll ctx (sortBindings bindings))
        exact .inl (hlinks.symm.trans hctx)
      | var name v => exact .inl hctx
      | skip => exact .inl hctx
    · refine .inr (List.mem_filterMap.mpr ?_)
      obtain ⟨o', ho', heq⟩ := List.mem_filterMap.mp hrest
      exact ⟨o', List.mem_cons_of_mem o ho', heq⟩

end Context

/-! ### Parents and listeners of all contexts -/

/-- Every context has the parent and the listeners that it had. -/
def Heap.SameLinks (h h' : Heap) : Prop := ∀ c, (h'.context c).links = (h.context c).links

theorem Heap.sameLinks_update {f : Context → Context} (hf : ∀ ctx, (f ctx).links = ctx.links)
    (h : Heap) (c : ContextId) : h.SameLinks (h.update c f) :=
  map_context_update Context.links hf h c

theorem Heap.sameLinks_clear (h : Heap) (c : ContextId) : h.SameLinks (h.clear c) :=
  sameLinks_update (f := (·.clear)) (fun _ => rfl) h c

theorem Heap.sameLinks_setVariable (h : Heap) (c : ContextId) (name : Text) (v : Value) :
    h.SameLinks (h.setVariable c name v) :=
  sameLinks_update (f := (·.set name v)) (fun _ => rfl) h c

/-- What readers keep: parents and listeners are those of `h`, and contexts that are new have
none. -/
def Invariant.links (h : Heap) : Invariant where
  heap h' := h.SameLinks h'
  value _ _ := True
  error _ := True
  grow := fun _ _ => trivial
  malformed := fun _ => trivial
  leaf := fun _ _ _ => trivial
  array := fun _ _ _ => trivial
  list := fun _ => trivial
  object := fun _ _ _ => trivial
  newContext := fun hh c => by rw [Heap.context_newContext]; exact hh c
  context := fun _ => trivial
  clear := fun hh _ c => (Heap.sameLinks_clear _ _ c).trans (hh c)
  setVariable := fun name v hh _ _ c => (Heap.sameLinks_setVariable _ _ name v c).trans (hh c)
  allocObject := fun _ hh => hh

/-- Reading a value adds contexts and changes no link. -/
theorem Reader.next_links (r : Reader) (h : Heap) :
    h.contexts.size ≤ (r.next h).2.2.contexts.size ∧ h.SameLinks (r.next h).2.2 := by
  have hstart : (Invariant.links h).heap h := fun _ => rfl
  have hkept := (record_kept r (fun _ _ _ => trivial) hstart).1
  exact ⟨hkept.count_le, hkept.heap⟩

/-- Filling a context adds contexts and changes no link. -/
theorem Reader.nextContext_links (r : Reader) (h : Heap) (c : ContextId) :
    h.contexts.size ≤ (r.nextContext h c).2.2.contexts.size ∧
      h.SameLinks (r.nextContext h c).2.2 := by
  have hread : ReadsSoundly (.links h) r.decoder.size r.record :=
    fun d h' hd _ hh => (readRecord_kept (fun _ _ _ => trivial) (Nat.lt_succ_of_le hd) hh).1
  have hkept := readContext_sound hread (c := c) trivial r.decoder h le_rfl le_rfl fun _ => rfl
  exact ⟨hkept.count_le, hkept.heap⟩

namespace Heap

variable {h h' : Heap} {c d p : ContextId}

theorem context_alloc (h : Heap) (ctx : Context) (d : ContextId) :
    (h.alloc ctx).2.context d = if d = h.contexts.size then ctx else h.context d := by
  have hpush : (h.alloc ctx).2.context d = ((h.contexts.push ctx)[d]?).getD {} := rfl
  rw [hpush, Array.getElem?_push]
  split
  · rfl
  · rfl

@[simp] theorem size_alloc (h : Heap) (ctx : Context) :
    (h.alloc ctx).2.contexts.size = h.contexts.size + 1 := by
  simp [alloc]

/-- Every parent is older than what it encloses. -/
def Layered (h : Heap) : Prop := ∀ c p, (h.context c).parent = some p → p < c

end Heap

/-! ### One operation -/

namespace ScopeOp

variable {h : Heap} {d p : ContextId}

theorem size_le_perform (op : ScopeOp) (h : Heap) :
    h.contexts.size ≤ (op.perform h).contexts.size := by
  cases op with
  | change op =>
    cases op with
    | create options => exact (Heap.size_newContext h options).ge.trans' (Nat.le_succ _)
    | child c options => exact (Heap.size_newContext h _).ge.trans' (Nat.le_succ _)
    | clone c options => exact (Heap.size_alloc h _).ge.trans' (Nat.le_succ _)
    | set c name v => exact (Heap.size_setVariable h c name v).ge
    | clearVar c name => exact (Heap.size_update h c _).ge
    | clear c => exact (Heap.size_clear h c).ge
  | listen c label => exact (Heap.size_update h c _).ge
  | fill c r => exact (r.nextContext_links h c).1
  | read r => exact (r.next_links h).1

/-- A new context has a parent with a property, and the others have the parents that they had. -/
theorem parent_alloc {ctx : Context} {P : ContextId → Prop}
    (hctx : ∀ p, ctx.parent = some p → P p) (h : Heap) (d : ContextId) :
    ((h.alloc ctx).2.context d).parent = (h.context d).parent ∨
      d = h.contexts.size ∧ ∀ p, ((h.alloc ctx).2.context d).parent = some p → P p := by
  rw [Heap.context_alloc]
  split
  · next hd => exact .inr ⟨hd, hctx⟩
  · exact .inl rfl

/-- **Parents are given to new contexts only**, and are contexts that the operation refers to or
parents of those. -/
theorem parent_perform (op : ScopeOp) (h : Heap) (d : ContextId) :
    ((op.perform h).context d).parent = (h.context d).parent ∨
      d = h.contexts.size ∧ ∀ p, ((op.perform h).context d).parent = some p →
        p ∈ op.refs ∨ ∃ c ∈ op.refs, (h.context c).parent = some p := by
  have hlinks : ∀ {h'}, h.SameLinks h' → (h'.context d).parent = (h.context d).parent :=
    fun hsame => congrArg Prod.fst (hsame d)
  cases op with
  | change op =>
    cases op with
    | create options =>
      refine parent_alloc (fun p hp => .inl ?_) h d
      exact (Context.parent_applyAll _ options hp).resolve_left (by simp)
    | child c options =>
      refine parent_alloc (fun p hp => .inl ?_) h d
      have hmem := (Context.parent_applyAll _ _ hp).resolve_left (by simp)
      simpa [refs, ContextOp.refs, ContextOption.parents] using hmem
    | clone c options =>
      refine parent_alloc (fun p hp => ?_) h d
      rcases Context.parent_applyAll _ options hp with hparent | hmem
      · exact .inr ⟨c, List.mem_cons_self, hparent⟩
      · exact .inl (List.mem_cons_of_mem c hmem)
    | set c name v => exact .inl (hlinks (Heap.sameLinks_setVariable h c name v))
    | clearVar c name =>
      exact .inl (hlinks (Heap.sameLinks_update (f := (·.erase name)) (fun _ => rfl) h c))
    | clear c => exact .inl (hlinks (Heap.sameLinks_clear h c))
  | listen c label =>
    refine .inl (Heap.map_context_update (·.parent) ?_ h c d)
    intro ctx
    rfl
  | fill c r => exact .inl (hlinks (r.nextContext_links h c).2)
  | read r => exact .inl (hlinks (r.next_links h).2)

/-- **A listener goes behind those of its context**, and nothing else changes listeners. -/
theorem listeners_perform {op : ScopeOp} (hrefs : ∀ c ∈ op.refs, c < h.contexts.size)
    (d : ContextId) :
    ((op.perform h).context d).listeners =
      (h.context d).listeners ++ (op.registers d).toList := by
  have hlinks : ∀ {h'}, h.SameLinks h' →
      (h'.context d).listeners = (h.context d).listeners ++ [] := fun hsame => by
    rw [List.append_nil]
    exact congrArg Prod.snd (hsame d)
  have halloc : ∀ {ctx : Context}, ctx.listeners = [] →
      ((h.alloc ctx).2.context d).listeners = (h.context d).listeners ++ [] := by
    intro ctx hctx
    rw [Heap.context_alloc, List.append_nil]
    split
    · next hd => rw [hctx, hd, Heap.context_of_size_le le_rfl]
    · rfl
  cases op with
  | change op =>
    cases op with
    | create options => exact halloc (Context.listeners_applyAll _ options)
    | child c options => exact halloc (Context.listeners_applyAll _ _)
    | clone c options => exact halloc (Context.listeners_applyAll _ options)
    | set c name v => exact hlinks (Heap.sameLinks_setVariable h c name v)
    | clearVar c name =>
      exact hlinks (Heap.sameLinks_update (f := (·.erase name)) (fun _ => rfl) h c)
    | clear c => exact hlinks (Heap.sameLinks_clear h c)
  | listen c label =>
    have hc : c < h.contexts.size := hrefs c List.mem_cons_self
    by_cases hcd : c = d
    · subst hcd
      rw [perform, Heap.listen, Heap.context_update hc, registers, if_pos rfl]
      rfl
    · rw [perform, Heap.listen, Heap.context_update_of_ne (Ne.symm hcd), registers, if_neg hcd]
      simp
  | fill c r => exact hlinks (r.nextContext_links h c).2
  | read r => exact hlinks (r.next_links h).2

/-- **Operations keep parents older.** -/
theorem layered_perform {op : ScopeOp} (hh : h.Layered)
    (hrefs : ∀ c ∈ op.refs, c < h.contexts.size) : (op.perform h).Layered := by
  intro d p hp
  rcases op.parent_perform h d with hsame | ⟨rfl, hparent⟩
  · exact hh d p (hsame ▸ hp)
  · rcases hparent p hp with hmem | ⟨c, hc, hcp⟩
    · exact hrefs p hmem
    · exact (hh c p hcp).trans (hrefs c hc)

/-- The parent of a context that is there stays. -/
theorem parent_perform_of_lt (op : ScopeOp) (hd : d < h.contexts.size) :
    ((op.perform h).context d).parent = (h.context d).parent :=
  (op.parent_perform h d).resolve_right fun hnew => absurd hnew.1 (Nat.ne_of_lt hd)

end ScopeOp

/-! ### Runs -/

namespace Reached

variable {ops : List ScopeOp} {h : Heap}

/-- **Parents are older in every heap that is reached.** -/
theorem layered (hh : Reached ops h) : h.Layered := by
  induction hh with
  | start =>
    intro c p hp
    rw [Heap.context_of_size_le (Nat.zero_le c)] at hp
    cases hp
  | step op _ hrefs ih => exact ScopeOp.layered_perform ih hrefs

/-- **The listeners of a context are those that were registered on it**, in that order. -/
theorem listeners (hh : Reached ops h) (c : ContextId) :
    (h.context c).listeners = registered ops c := by
  induction hh with
  | start => rw [Heap.context_of_size_le (Nat.zero_le c)]; rfl
  | @step ops h op _ hrefs ih =>
    rw [ScopeOp.listeners_perform hrefs, ih]
    cases hop : op.registers c <;> simp [registered, hop]

end Reached

/-! ### Chains -/

namespace Heap

variable {h : Heap} {c d p : ContextId}

/-- The second context is the parent of the first one. -/
def IsInside (h : Heap) (c p : ContextId) : Prop := (h.context c).parent = some p

/-- The scopes from an optional one outwards. -/
def scopesFrom (h : Heap) : Option ContextId → List ContextId
  | none => []
  | some c => h.chain c

/-- With older parents more fuel than the number of the context makes no difference. -/
theorem chainFrom_eq (hh : h.Layered) {n : Nat} (hc : c < n) : h.chainFrom n c = h.chain c := by
  induction c using Nat.strong_induction_on generalizing n with
  | _ c ih =>
    obtain ⟨n, rfl⟩ := Nat.exists_eq_succ_of_ne_zero (Nat.ne_of_gt (Nat.zero_lt_of_lt hc))
    rw [chain, chainFrom, chainFrom]
    cases hp : (h.context c).parent with
    | none => rfl
    | some p =>
      have hlt : p < c := hh c p hp
      dsimp only
      rw [ih p hlt (lt_of_lt_of_le hlt (Nat.lt_succ_iff.mp hc)), ih p hlt hlt]

/-- **The chain of a context** is the context and the chain of its parent. -/
theorem chain_eq (hh : h.Layered) (c : ContextId) :
    h.chain c = c :: h.scopesFrom (h.context c).parent := by
  rw [chain, chainFrom]
  cases hp : (h.context c).parent with
  | none => rfl
  | some p => exact congrArg (c :: ·) (chainFrom_eq hh (hh c p hp))

/-- The chain holds the context and all scopes around it. -/
theorem mem_chain_iff (hh : h.Layered) :
    d ∈ h.chain c ↔ Relation.ReflTransGen h.IsInside c d := by
  induction c using Nat.strong_induction_on with
  | _ c ih =>
    rw [chain_eq hh, List.mem_cons, Relation.ReflTransGen.cases_head_iff]
    refine or_congr eq_comm ?_
    cases hp : (h.context c).parent with
    | none => simp [scopesFrom, IsInside, hp]
    | some p => simp [scopesFrom, IsInside, hp, ih p (hh c p hp)]

theorem le_of_mem_chain (hh : h.Layered) (hd : d ∈ h.chain c) : d ≤ c := by
  induction c using Nat.strong_induction_on with
  | _ c ih =>
    rw [chain_eq hh, List.mem_cons] at hd
    rcases hd with rfl | hd
    · exact le_rfl
    · cases hp : (h.context c).parent with
      | none =>
        rw [hp] at hd
        cases hd
      | some p =>
        rw [hp] at hd
        exact (ih p (hh c p hp) hd).trans (hh c p hp).le

/-- No scope comes twice. -/
theorem nodup_chain (hh : h.Layered) (c : ContextId) : (h.chain c).Nodup := by
  induction c using Nat.strong_induction_on with
  | _ c ih =>
    rw [chain_eq hh, List.nodup_cons]
    cases hp : (h.context c).parent with
    | none => exact ⟨List.not_mem_nil, List.nodup_nil⟩
    | some p =>
      have hlt : p < c := hh c p hp
      exact ⟨fun hmem => absurd (le_of_mem_chain hh hmem) (Nat.not_le_of_gt hlt), ih p hlt⟩

/-- **No context is around itself.** -/
theorem acyclic (hh : h.Layered) (c : ContextId) : ¬ Relation.TransGen h.IsInside c c := by
  have hless : ∀ {d}, Relation.TransGen h.IsInside c d → d < c := by
    intro d hd
    induction hd with
    | single hp => exact hh c _ hp
    | tail _ hp ih => exact (hh _ _ hp).trans ih
  exact fun hcycle => Nat.lt_irrefl c (hless hcycle)

/-! ### Look-ups -/

/-- The loop of a look-up, from a scope outwards, ends with the result. -/
inductive Finds (h : Heap) (name : Text) : Option ContextId → Option Value → Prop
  /-- There is no scope left. -/
  | outside : Finds h name none none
  /-- The scope has a variable of the name. -/
  | here {c : ContextId} {v : Value} : (h.context c).get? name = some v →
    Finds h name (some c) (some v)
  /-- The loop goes on with the parent. -/
  | outwards {c : ContextId} {r : Option Value} : (h.context c).get? name = none →
    Finds h name (h.context c).parent r → Finds h name (some c) r

theorem Finds.unique {name : Text} {scope : Option ContextId} {r r' : Option Value}
    (hr : h.Finds name scope r) (hr' : h.Finds name scope r') : r = r' := by
  induction hr with
  | outside => cases hr'; rfl
  | here hget =>
    cases hr' with
    | here hget' => exact hget.symm.trans hget'
    | outwards hnone => cases hget.symm.trans hnone
  | outwards hnone _ ih =>
    cases hr' with
    | here hget => cases hnone.symm.trans hget
    | outwards _ hrest => exact ih hrest

/-- The loop ends. -/
theorem finds_lookup (hh : h.Layered) (c : ContextId) (name : Text) :
    h.Finds name (some c) (h.lookup c name) := by
  induction c using Nat.strong_induction_on with
  | _ c ih =>
    rw [lookup, chain_eq hh, List.findSome?_cons]
    cases hget : (h.context c).get? name with
    | some v => exact .here hget
    | none =>
      refine .outwards hget ?_
      cases hp : (h.context c).parent with
      | none => exact .outside
      | some p => exact ih p (hh c p hp)

/-- What is asked of looking a name up. -/
structure LookupFollows (h : Heap) (c : ContextId) (name : Text) : Prop where
  /-- The loop ends with what the look-up gives, -/
  ends : h.Finds name (some c) (h.lookup c name)
  /-- and with nothing else. -/
  only : ∀ r, h.Finds name (some c) r → r = h.lookup c name
  /-- A value is that of the nearest scope with a variable of the name. -/
  nearest : ∀ v, h.lookup c name = some v ↔ ∃ inner d outer, h.chain c = inner ++ d :: outer ∧
    (∀ i ∈ inner, (h.context i).get? name = none) ∧ (h.context d).get? name = some v
  /-- There is none exactly if no scope has such a variable. -/
  missing : h.lookup c name = none ↔ ∀ d ∈ h.chain c, (h.context d).get? name = none

/-- **A look-up follows the chain.** -/
theorem lookup_follows (hh : h.Layered) (c : ContextId) (name : Text) :
    h.LookupFollows c name where
  ends := finds_lookup hh c name
  only := fun _ hr => hr.unique (finds_lookup hh c name)
  nearest := fun v => by
    rw [lookup, List.findSome?_eq_some_iff]
    constructor
    · rintro ⟨inner, d, outer, hchain, hget, hinner⟩
      exact ⟨inner, d, outer, hchain, hinner, hget⟩
    · rintro ⟨inner, d, outer, hchain, hinner, hget⟩
      exact ⟨inner, d, outer, hchain, hget, hinner⟩
  missing := List.findSome?_eq_none_iff

end Heap

end Reckoner
