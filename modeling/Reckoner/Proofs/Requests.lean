import Reckoner.Proofs.ScopeChains

/-!
# Requests

A request to replace the current context is passed on to the listeners of a context, in the order
of their registration, and then to those of each scope around it. The listeners are a host's own:
they may make contexts, change variables and read streams, and a listener that makes a request of
its own does what the listeners that hear of it do. As long as they register no listeners, the
scopes and the listeners of these are the ones that there were when the request was made. So the
loop ends after as many steps as there are calls and scopes, and each registration is one call.
-/

namespace Reckoner

/-- One call of a listener: the scope that it is registered on, its label, and what it is told. -/
structure Notice where
  /-- The scope that the listener is registered on. -/
  scope : ContextId
  listener : Text
  request : Request
  /-- The context that it is asked about. -/
  context : ContextId

/-- The calls of the listeners of one scope. -/
def Heap.noticesAt (h : Heap) (request : Request) (next d : ContextId) : List Notice :=
  (h.context d).listeners.map fun l => ⟨d, l, request, next⟩

/-- The calls of the listeners of a context and of the scopes around it, innermost first. -/
def Heap.notices (h : Heap) (c : ContextId) (request : Request) (next : ContextId) : List Notice :=
  (h.chain c).flatMap (h.noticesAt request next)

/-! ### The loop -/

/-- What a listener may do: operations other than to register listeners, each of which refers to
contexts that there are by then only. -/
inductive Acts (h : Heap) : Heap → Prop
  /-- The listener does nothing more. -/
  | nothing : Acts h h
  /-- It does one more operation. -/
  | step {h' : Heap} {op : ScopeOp} : Acts h h' → (∀ d ∈ op.refs, d < h'.contexts.size) →
    (∀ d, op.registers d = none) → Acts h (op.perform h')

/-- A state of the loop that passes a request on. -/
structure Passing where
  /-- The contexts as they are now: listeners may change them. -/
  heap : Heap
  /-- The scope whose listeners are called; none behind the outermost one. -/
  scope : Option ContextId
  /-- Those of its listeners that are still to be called. -/
  pending : List Text
  /-- The calls so far. -/
  told : List Notice

namespace Passing

/-- The state in front of the listeners of a scope. -/
def enter (h : Heap) (scope : Option ContextId) (told : List Notice) : Passing :=
  ⟨h, scope, scope.elim [] fun c => (h.context c).listeners, told⟩

/-- A step of the loop: the next listener is called, or the loop goes on with the parent. -/
inductive Step (request : Request) (next : ContextId) : Passing → Passing → Prop
  /-- The next listener of the scope is called, and does what it may. -/
  | call {h h' : Heap} {c : ContextId} {l : Text} {ls : List Text} {told : List Notice} :
    Acts h h' → Step request next ⟨h, some c, l :: ls, told⟩
      ⟨h', some c, ls, told ++ [⟨c, l, request, next⟩]⟩
  /-- The scope has no listener left, so the loop goes on with the parent. -/
  | outwards {h : Heap} {c : ContextId} {told : List Notice} :
    Step request next ⟨h, some c, [], told⟩ (enter h (h.context c).parent told)

/-- So many steps of the loop. -/
inductive Steps (request : Request) (next : ContextId) (e : Passing) : Nat → Passing → Prop
  | none : Steps request next e 0 e
  | more {n : Nat} {e' e'' : Passing} : Steps request next e n e' → Step request next e' e'' →
    Steps request next e (n + 1) e''

end Passing

/-! ### What stays -/

/-- All contexts of `h` are there, with the parents and listeners that they had. -/
structure Heap.LinksKept (h h' : Heap) : Prop where
  /-- No context is gone. -/
  size_le : h.contexts.size ≤ h'.contexts.size
  /-- Parents and listeners are as they were. -/
  links : ∀ d, d < h.contexts.size → (h'.context d).links = (h.context d).links

namespace Heap.LinksKept

variable {h h' h'' : Heap} {d : ContextId}

theorem refl (h : Heap) : h.LinksKept h := ⟨le_rfl, fun _ _ => rfl⟩

theorem trans (hk : h.LinksKept h') (hk' : h'.LinksKept h'') : h.LinksKept h'' :=
  ⟨hk.size_le.trans hk'.size_le, fun d hd =>
    (hk'.links d (hd.trans_le hk.size_le)).trans (hk.links d hd)⟩

theorem parent (hk : h.LinksKept h') (hd : d < h.contexts.size) :
    (h'.context d).parent = (h.context d).parent :=
  congrArg Prod.fst (hk.links d hd)

theorem listeners (hk : h.LinksKept h') (hd : d < h.contexts.size) :
    (h'.context d).listeners = (h.context d).listeners :=
  congrArg Prod.snd (hk.links d hd)

/-- **A listener leaves parents and listeners as they are.** -/
theorem of_acts (hacts : Acts h h') : h.LinksKept h' := by
  induction hacts with
  | nothing => exact refl h
  | @step h' op _ hrefs hquiet ih =>
    refine ih.trans ⟨op.size_le_perform h', fun d hd => Prod.ext ?_ ?_⟩
    · exact op.parent_perform_of_lt hd
    · have hlisteners := ScopeOp.listeners_perform hrefs d
      rw [hquiet, Option.toList_none, List.append_nil] at hlisteners
      exact hlisteners

end Heap.LinksKept

/-! ### The loop along the chain -/

namespace Passing

variable {h : Heap} {c : ContextId} {request : Request} {next : ContextId} {n : Nat}
  {e e' : Passing}

/-- The calls that are still to come. -/
def rest (h : Heap) (request : Request) (next : ContextId) (e : Passing) : List Notice :=
  e.scope.elim [] fun d => e.pending.map (fun l => ⟨d, l, request, next⟩) ++
    (h.scopesFrom (h.context d).parent).flatMap (h.noticesAt request next)

/-- The number of calls of listeners of scopes, and of the steps from them to their parents. -/
def steps (h : Heap) (scopes : List ContextId) : Nat :=
  (scopes.map fun d => (h.context d).listeners.length + 1).sum

/-- The number of steps that are still to come. -/
def todo (h : Heap) (e : Passing) : Nat :=
  e.scope.elim 0 fun d => e.pending.length + 1 + steps h (h.scopesFrom (h.context d).parent)

/-- What holds after `n` steps for a request that was made in the heap `h`: together with what is
to come they are the calls and the steps along the chain. -/
structure Along (h : Heap) (c : ContextId) (request : Request) (next : ContextId) (n : Nat)
    (e : Passing) : Prop where
  /-- Parents and listeners are as they were, so the chain is the same. -/
  kept : h.LinksKept e.heap
  /-- The loop is at a context that was there at first. -/
  scope : ∀ d, e.scope = some d → d < h.contexts.size
  /-- The calls so far and those to come are all of them, in their order. -/
  calls : e.told ++ e.rest h request next = h.notices c request next
  /-- The steps so far and those to come are as many as the chain has. -/
  count : n + e.todo h = steps h (h.chain c)

/-- In front of the listeners of a scope that was there at the request, its calls and those of the
scopes around it are to come, -/
theorem rest_enter (hh : h.Layered) {h' : Heap} (hkept : h.LinksKept h')
    (hc : c < h.contexts.size) (told : List Notice) :
    (enter h' (some c) told).rest h request next = h.notices c request next := by
  simp only [rest, enter, Option.elim_some, Heap.notices, Heap.chain_eq hh c, List.flatMap_cons,
    Heap.noticesAt, hkept.listeners hc]

/-- and as many steps as there are calls and scopes. -/
theorem todo_enter (hh : h.Layered) {h' : Heap} (hkept : h.LinksKept h')
    (hc : c < h.contexts.size) (told : List Notice) :
    (enter h' (some c) told).todo h = steps h (h.chain c) := by
  simp only [todo, enter, Option.elim_some, steps, Heap.chain_eq hh c, List.map_cons,
    List.sum_cons, hkept.listeners hc]

theorem along_start (hh : h.Layered) (hc : c < h.contexts.size) :
    Along h c request next 0 (enter h (some c) []) := by
  refine ⟨.refl h, ?_, ?_, ?_⟩
  · rintro d ⟨rfl⟩
    exact hc
  · rw [rest_enter hh (.refl h) hc]
    rfl
  · rw [todo_enter hh (.refl h) hc, Nat.zero_add]

/-- **A step goes on along the chain.** -/
theorem Along.step (hh : h.Layered) (he : Along h c request next n e)
    (hstep : Step request next e e') : Along h c request next (n + 1) e' := by
  obtain ⟨hkept, hscope, hcalls, hcount⟩ := he
  cases hstep with
  | @call _ _ d l ls told hacts =>
    refine ⟨hkept.trans (.of_acts hacts), hscope, ?_, ?_⟩
    · simpa [rest] using hcalls
    · simp only [todo, Option.elim_some, List.length_cons] at hcount ⊢
      omega
  | @outwards _ d told =>
    have hd : d < h.contexts.size := hscope d rfl
    rw [hkept.parent hd]
    cases hp : (h.context d).parent with
    | none =>
      refine ⟨hkept, fun q hq => (by cases hq), ?_, ?_⟩
      · simpa [rest, hp, Heap.scopesFrom, enter] using hcalls
      · simpa [todo, hp, Heap.scopesFrom, enter, steps] using hcount
    | some p =>
      have hp' : p < h.contexts.size := (hh d p hp).trans hd
      refine ⟨hkept, ?_, ?_, ?_⟩
      · rintro q ⟨rfl⟩
        exact hp'
      · rw [rest_enter hh hkept hp']
        simpa [rest, hp, Heap.scopesFrom, enter, Heap.notices] using hcalls
      · rw [todo_enter hh hkept hp']
        simp only [todo, hp, Option.elim_some, Heap.scopesFrom, List.length_nil] at hcount
        omega

/-- **So does a run.** -/
theorem Steps.along (hh : h.Layered) (hc : c < h.contexts.size)
    (hsteps : Steps request next (enter h (some c) []) n e) : Along h c request next n e := by
  induction hsteps with
  | none => exact along_start hh hc
  | more _ hstep ih => exact ih.step hh hstep

/-- The loop goes on as long as there is a scope. -/
theorem scope_eq_none (hlast : ∀ e', ¬ Step request next e e') : e.scope = none := by
  obtain ⟨h, scope, pending, told⟩ := e
  cases scope with
  | none => rfl
  | some d =>
    cases pending with
    | nil => exact absurd .outwards (hlast _)
    | cons l ls => exact absurd (.call .nothing) (hlast _)

end Passing

/-! ### The chain and what follows it -/

/-- What is asked of passing a request on. -/
structure Heap.RequestFollows (h : Heap) (c : ContextId) (request : Request) (next : ContextId)
    (expected : List Notice) : Prop where
  /-- The loop ends, with a step for each call and one for each scope. -/
  ends : ∀ n e, Passing.Steps request next (.enter h (some c) []) n e →
    n ≤ expected.length + (h.chain c).length
  /-- Whatever the listeners do, they are called as expected, one after another, -/
  calls : ∀ n e, Passing.Steps request next (.enter h (some c) []) n e → e.told <+: expected
  /-- and at the end all calls have been made. -/
  last : ∀ n e, Passing.Steps request next (.enter h (some c) []) n e →
    (∀ e', ¬ Passing.Step request next e e') → e.scope = none ∧ e.told = expected
  /-- The events of the request say so. -/
  events : (h.events c request next).map (fun e => (e.listener, e.request, e.context)) =
    expected.map fun n => (n.listener, n.request, n.context)

/-- **A request follows the chain.** -/
theorem Heap.request_follows {h : Heap} (hh : h.Layered) {c : ContextId}
    (hc : c < h.contexts.size) (request : Request) (next : ContextId) :
    h.RequestFollows c request next (h.notices c request next) where
  ends := fun n e hsteps => by
    have hcount := (hsteps.along hh hc).count
    have htotal : Passing.steps h (h.chain c) =
        (h.notices c request next).length + (h.chain c).length := by
      simp [Passing.steps, Heap.notices, Heap.noticesAt, List.length_flatMap,
        List.sum_map_add]
    omega
  calls := fun n e hsteps => ⟨_, (hsteps.along hh hc).calls⟩
  last := fun n e hsteps hlast => by
    have hscope := Passing.scope_eq_none hlast
    have hcalls := (hsteps.along hh hc).calls
    rw [Passing.rest, hscope, Option.elim_none, List.append_nil] at hcalls
    exact ⟨hscope, hcalls⟩
  events := by
    simp only [Heap.events, Heap.notices, Heap.noticesAt, List.map_flatMap, List.map_map]
    rfl

/-- The calls of the listeners that operations have registered, scope by scope. -/
def Notice.along (ops : List ScopeOp) (request : Request) (next : ContextId)
    (scopes : List ContextId) : List Notice :=
  scopes.flatMap fun d => (registered ops d).map fun l => ⟨d, l, request, next⟩

/-- **Scope chains are finite, and look-ups and requests follow them.** Whatever a host does, no
context is around itself; the chain of a context consists of it and of the scopes around it, each
once; a look-up ends with the nearest variable on the chain; and a request calls the listeners
that were registered along it, innermost first, for each registration once. -/
theorem Reached.chains_followed {ops : List ScopeOp} {h : Heap} (hreached : Reached ops h) :
    (∀ c, ¬ Relation.TransGen h.IsInside c c) ∧ ∀ c, c < h.contexts.size →
      (h.chain c = c :: h.scopesFrom (h.context c).parent ∧ (h.chain c).Nodup ∧
        ∀ d, d ∈ h.chain c ↔ Relation.ReflTransGen h.IsInside c d) ∧
      (∀ name, h.LookupFollows c name) ∧
      ∀ request next,
        h.RequestFollows c request next (Notice.along ops request next (h.chain c)) := by
  have hh := hreached.layered
  refine ⟨Heap.acyclic hh, fun c hc => ⟨⟨Heap.chain_eq hh c, Heap.nodup_chain hh c, fun d =>
    Heap.mem_chain_iff hh⟩, Heap.lookup_follows hh c, fun request next => ?_⟩⟩
  have hcalls : Notice.along ops request next (h.chain c) = h.notices c request next := by
    refine List.flatMap_congr fun d _ => ?_
    rw [Heap.noticesAt, hreached.listeners]
  rw [hcalls]
  exact Heap.request_follows hh hc request next

/-- A scope with a variable, a scope inside of it, and a listener on each. -/
def ScopeOp.nested : List ScopeOp :=
  [.change (.create []), .change (.child 0 []), .listen 0 "outer", .listen 1 "inner",
    .change (.set 0 "x" (.int 1))]

/-- From the inner scope the variable is found, and the inner listener is called first. -/
theorem nestedScopes_followed : ∃ h, Reached ScopeOp.nested h ∧ h.lookup 1 "x" = some (.int 1) ∧
    h.LookupFollows 1 "x" ∧ ∀ request next, h.RequestFollows 1 request next
      [⟨1, "inner", request, next⟩, ⟨0, "outer", request, next⟩] := by
  have hreached : Reached ScopeOp.nested _ :=
    ((((Reached.start.step (.change (.create [])) (by decide)).step
      (.change (.child 0 [])) (by decide)).step
      (.listen 0 "outer") (by decide)).step
      (.listen 1 "inner") (by decide)).step
      (.change (.set 0 "x" (.int 1))) (by decide)
  obtain ⟨-, hfollowed⟩ := hreached.chains_followed
  obtain ⟨-, hlookups, hrequests⟩ := hfollowed 1 (by decide)
  exact ⟨_, hreached, rfl, hlookups "x", hrequests⟩

end Reckoner
