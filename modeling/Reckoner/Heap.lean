import Reckoner.Error

/-!
# Contexts

A context is a scope of named variables. Names are distinct and keep the order in which they
were first set. A context may have a parent, which look-ups fall back to, and listeners, which
are told when an evaluation asks to replace the current context.

All contexts of a program live in a `Heap`, numbered in the order of their creation. The parent
of a context is fixed when it is created and is always an older one, so the chain of parents of
a context is never longer than its number. User-defined objects live beside the contexts; they
do not change once created.
-/

namespace Reckoner

/-- A scope of named variables. -/
structure Context where
  /-- The enclosing scope. -/
  parent : Option ContextId := none
  /-- The variables in the order in which they were first set. -/
  vars : List (Text × Value) := []
  /-- The labels of the listeners in the order of their registration. -/
  listeners : List Text := []
  deriving Inhabited, Repr

namespace Context

/-- The names of the variables, in their order. -/
def names (ctx : Context) : List Text := ctx.vars.map (·.1)

/-- The value of a variable of this scope. -/
def get? (ctx : Context) (name : Text) : Option Value := ctx.vars.lookup name

/-- Sets a variable in a list of variables: an existing one keeps its position, a new one goes
last. -/
def setIn (name : Text) (v : Value) : List (Text × Value) → List (Text × Value)
  | [] => [(name, v)]
  | (n, w) :: rest => if n = name then (n, v) :: rest else (n, w) :: setIn name v rest

/-- Sets a variable. -/
def set (ctx : Context) (name : Text) (v : Value) : Context :=
  { ctx with vars := setIn name v ctx.vars }

/-- Removes a variable. -/
def erase (ctx : Context) (name : Text) : Context :=
  { ctx with vars := ctx.vars.filter fun (n, _) => n ≠ name }

/-- Removes all variables. -/
def clear (ctx : Context) : Context := { ctx with vars := [] }

end Context

/-- A user-defined object, of a type that the host names. -/
structure Object where
  hostType : Text
  /-- The fields of its block, in order. -/
  fields : List Field
  deriving Inhabited, Repr

/-- All contexts and objects of a program. -/
structure Heap where
  /-- The contexts by their numbers. None is ever taken away. -/
  contexts : Array Context := #[]
  /-- The objects by their numbers. -/
  objects : Array Object := #[]
  deriving Inhabited

namespace Heap

/-- No contexts and no objects. -/
def empty : Heap := {}

/-- The context with a number; numbers of no context stand for an empty one. -/
def context (h : Heap) (c : ContextId) : Context := h.contexts[c]?.getD {}

/-- The object with a number. -/
def object (h : Heap) (o : ObjectId) : Object := h.objects[o]?.getD default

/-- The names of the variables of a context. -/
def names (h : Heap) : Names := fun c => (h.context c).names

/-- Changes one context. -/
def update (h : Heap) (c : ContextId) (f : Context → Context) : Heap :=
  { h with contexts := h.contexts.modify c f }

/-- Adds a context and gives its number. -/
def alloc (h : Heap) (ctx : Context) : ContextId × Heap :=
  (h.contexts.size, { h with contexts := h.contexts.push ctx })

/-- Adds an object and gives its number. -/
def allocObject (h : Heap) (o : Object) : ObjectId × Heap :=
  (h.objects.size, { h with objects := h.objects.push o })

/-- The text of a value. -/
def text (h : Heap) (v : Value) : Text := v.toText h.names

/-- At most `n` contexts of the chain of parents, the given one first. -/
def chainFrom (h : Heap) : (n : Nat) → ContextId → List ContextId
  | 0, _ => []
  | n + 1, c => c :: match (h.context c).parent with
    | none => []
    | some p => chainFrom h n p

/-- The context and its enclosing scopes, innermost first. -/
def chain (h : Heap) (c : ContextId) : List ContextId := h.chainFrom (c + 1) c

/-- The value of a variable, searching enclosing scopes. -/
def lookup (h : Heap) (c : ContextId) (name : Text) : Option Value :=
  (h.chain c).findSome? fun d => (h.context d).get? name

end Heap

/-! ### Creating contexts -/

/-- An option for a new context; `α` is what a variable is set to. -/
inductive ContextOption (α : Type) where
  /-- Sets a variable. -/
  | var (name : Text) (v : α)
  /-- Sets variables in the order of their names. -/
  | vars (bindings : List (Text × α))
  /-- Sets the enclosing scope. -/
  | parent (p : Option ContextId)
  /-- Does nothing. -/
  | skip

/-- Adds a binding to a list sorted by name; the later of two bindings of a name wins. -/
def insertSorted {α : Type} (name : Text) (v : α) : List (Text × α) → List (Text × α)
  | [] => [(name, v)]
  | (n, w) :: rest =>
    match compare name n with
    | .lt => (name, v) :: (n, w) :: rest
    | .eq => (name, v) :: rest
    | .gt => (n, w) :: insertSorted name v rest

/-- The bindings in the order of their names, each name once. -/
def sortBindings {α : Type} (bindings : List (Text × α)) : List (Text × α) :=
  bindings.foldl (fun sorted (n, v) => insertSorted n v sorted) []

/-- A variable cannot be set to no value. -/
def requireValue (name : Text) : Option Value → Except Error Value
  | some v => .ok v
  | none => .error (.fault (some ("expressions: nil value for variable " ++ name)))

/-- Checks that an option sets every variable to a value. -/
def ContextOption.require : ContextOption (Option Value) → Except Error (ContextOption Value)
  | var name v => return .var name (← requireValue name v)
  | vars bindings => do
    let checked ← (sortBindings bindings).mapM fun (n, v) => return (n, ← requireValue n v)
    return .vars checked
  | parent p => return .parent p
  | skip => return .skip

namespace Context

/-- Applies one option. -/
def apply (ctx : Context) : ContextOption Value → Context
  | .var name v => ctx.set name v
  | .vars bindings => (sortBindings bindings).foldl (fun ctx (n, v) => ctx.set n v) ctx
  | .parent p => { ctx with parent := p }
  | .skip => ctx

/-- Applies options in order. -/
def applyAll (ctx : Context) (options : List (ContextOption Value)) : Context :=
  options.foldl apply ctx

end Context

namespace Heap

/-- A new context. -/
def newContext (h : Heap) (options : List (ContextOption Value)) : ContextId × Heap :=
  h.alloc (Context.applyAll {} options)

/-- A new context enclosed by `c`. -/
def child (h : Heap) (c : ContextId) (options : List (ContextOption Value)) : ContextId × Heap :=
  h.newContext (.parent (some c) :: options)

/-- A copy of the variables and the parent of `c`; values are shared, listeners not copied. -/
def clone (h : Heap) (c : ContextId) (options : List (ContextOption Value)) : ContextId × Heap :=
  let ctx := h.context c
  h.alloc (Context.applyAll { ctx with listeners := [] } options)

/-- Sets a variable of a context. -/
def setVariable (h : Heap) (c : ContextId) (name : Text) (v : Value) : Heap :=
  h.update c (·.set name v)

/-- Removes a variable and says whether it was there. -/
def clearVariable (h : Heap) (c : ContextId) (name : Text) : Bool × Heap :=
  (((h.context c).get? name).isSome, h.update c (·.erase name))

/-- Removes all variables of a context. Its parent and its listeners stay. -/
def clear (h : Heap) (c : ContextId) : Heap := h.update c (·.clear)

/-- Registers a listener. -/
def listen (h : Heap) (c : ContextId) (label : Text) : Heap :=
  h.update c fun ctx => { ctx with listeners := ctx.listeners ++ [label] }

end Heap

/-! ### Requests -/

/-- What an evaluation asks its host for. -/
inductive Request where
  /-- To adopt a new context. -/
  | created
  /-- To switch to an existing one. -/
  | swapped
  deriving DecidableEq, Repr

/-- A request as one listener receives it. -/
structure Event where
  /-- The label of the listener. -/
  listener : Text
  request : Request
  /-- The context that evaluation is about to go on in. -/
  context : ContextId
  /-- The text of the context at the time of the request. -/
  shown : Text
  deriving DecidableEq, Repr

/-- What the listeners of a context and of its enclosing scopes receive, innermost first. -/
def Heap.events (h : Heap) (c : ContextId) (request : Request) (next : ContextId) : List Event :=
  (h.chain c).flatMap fun d =>
    (h.context d).listeners.map fun l => ⟨l, request, next, h.text (.context next)⟩

end Reckoner
