import Mathlib.Tactic
import Reckoner.Proofs.GlobalSteps

/-!
# The global context is an ordered map

Whatever operations are done one after another, through handles of any modes, each answers as it
would on an ordered map, and each place has a map of its own. What is written as lines is read
back as lines keep it; the other layouts keep everything. Between two operations the host may do
with contexts what it likes.
-/

namespace Reckoner

open Run

namespace Global

/-- An operation on a stored context. -/
inductive Operation where
  /-- Reads the whole context. -/
  | load
  /-- Replaces the stored context by a copy of another one. -/
  | save (c : ContextId)
  /-- Sets one variable. -/
  | set (name : Text) (v : Value)
  /-- Asks for one variable. -/
  | get (name : Text)
  /-- Removes some variables, or all if none is named. -/
  | clear (names : List Text)
  deriving Repr

/-- What an operation answers when it succeeds. -/
inductive Reply where
  /-- A new context with the variables. -/
  | context (c : ContextId)
  /-- The value of a variable. -/
  | value (v : Value)
  /-- Nothing but that it is done. -/
  | done
  deriving Repr

/-- Does an operation through a handle. -/
def perform (g : Global) : Operation → Run Reply
  | .load => do return .context (← g.load)
  | .save c => do
    g.save c
    return .done
  | .set name v => do
    g.setVariable name v
    return .done
  | .get name => do return .value (← g.getVariable name)
  | .clear names => do
    g.clear names
    return .done

/-- What an operation may be asked to store: a value that the layout `bound` can hold or that has
no stored form, and that refers to contexts that there are. -/
def Operation.Sensible (bound : Layout) (h : Heap) : Operation → Prop
  | save c => h.Storable bound (.context c) ∨ h.Unstorable (.context c)
  | set name v => name.length ≤ 2 ^ 28 ∧ (∀ d, h.Reaches v (.context d) → d < h.contexts.size) ∧
    (h.Storable bound v ∨ h.Unstorable v)
  | _ => True

/-- What an operation does to the map `m` and what it answers. It is called with the heap `h`,
and `h'` is the heap afterwards; `layout` is the one that the handle writes. -/
inductive Operation.Does (h : Heap) (layout : Layout) (m : StoredMap) :
    Operation → Except Error Reply → Heap → StoredMap → Prop where
  /-- A new context holds the map. -/
  | load {c : ContextId} {h' : Heap} :
    h'.Shows (h'.Since h.contexts.size) (.context c) (.context m) →
    Does h layout m .load (.ok (.context c)) h' m
  /-- The map is the one that the context holds. -/
  | save {c : ContextId} {vars : StoredMap} {h' : Heap} :
    h.Shows (fun _ => True) (.context c) (.context vars) →
    Does h layout m (.save c) (.ok .done) h' (vars.normal layout)
  /-- A context without a stored form changes nothing. -/
  | saveRefused {c : ContextId} {e : Error} {h' : Heap} : h.Unstorable (.context c) →
    Does h layout m (.save c) (.error (.during writingActivity e)) h' m
  /-- The name stands for a copy of the value. -/
  | set {name : Text} {v : Value} {s : Snapshot} {h' : Heap} : h.Shows (fun _ => True) v s →
    Does h layout m (.set name v) (.ok .done) h' ((m.put name s).normal layout)
  /-- A value without a stored form changes nothing. -/
  | setRefused {name : Text} {v : Value} {e : Error} {h' : Heap} : h.Unstorable v →
    Does h layout m (.set name v) (.error (.during writingActivity e)) h' m
  /-- The answer is a copy of what the name stands for. -/
  | get {name : Text} {v : Value} {s : Snapshot} {h' : Heap} : m.lookup name = some s →
    h'.Shows (h'.Since h.contexts.size) v s → Does h layout m (.get name) (.ok (.value v)) h' m
  /-- A name that is not in the map is undefined. -/
  | getMissing {name : Text} {h' : Heap} : m.lookup name = none →
    Does h layout m (.get name) (.error (.undefinedName name)) h' m
  /-- The names are taken out of the map. -/
  | clear {names : List Text} {h' : Heap} :
    Does h layout m (.clear names) (.ok .done) h' ((m.without names).normal layout)

variable {bound : Layout} {g : Global} {w : World} {m : StoredMap} {place : Place} {op : Operation}

/-! ### One operation -/

/-- **An operation touches one place**, and none if it fails. -/
theorem perform_touches (hslot : g.slot.KeepsAt w.storage.databases.size place)
    (op : Operation) : Touches place w ((g.perform op).exec w) := by
  cases op with
  | load => exact touches_map (touches_same (load_storage g w))
  | save c => exact touches_map (save_touches hslot c)
  | set name v => exact touches_map (setVariable_touches hslot name v)
  | get name => exact touches_map (getVariable_touches g name)
  | clear names => exact touches_map (clear_touches hslot names)

/-- What comes of an operation from `w`: the stored map is what the operation makes of `m`, and
the contexts that there were are as they were. -/
structure Done (bound : Layout) (g : Global) (place : Place) (m : StoredMap) (op : Operation)
    (w : World) (out : Except Error Reply × World) : Prop where
  /-- Contexts are only added. -/
  grows : w.heap.Grows out.2.heap
  /-- The operation answers as on the map, and what it makes of the map is stored. -/
  does : ∃ m', op.Does w.heap g.mode.layout m out.1 out.2.heap m' ∧
    m'.IsIn bound (out.2.storage.bytes? place)

section

variable (hslot : g.slot.KeepsAt w.storage.databases.size place) (hmode : g.mode ∈ Mode.named)
  (hbound : bound.Narrower g.mode.layout) (hcatalog : g.catalog = Catalog.values)
  (hm : m.IsIn bound (w.storage.bytes? place))

include hslot hcatalog hm

theorem load_done : Done bound g place m .load w ((g.perform .load).exec w) := by
  obtain ⟨c, w₁, hload, hstorage, hloaded⟩ := load_stored hslot hcatalog hm
  rw [perform, exec_bind_ok hload]
  exact ⟨hloaded.grows, m, .load hloaded.shows, by rw [exec_pure, hstorage]; exact hm⟩

theorem get_done (name : Text) :
    Done bound g place m (.get name) w ((g.perform (.get name)).exec w) := by
  obtain ⟨c, w₁, hload, hstorage, hloaded⟩ := load_stored hslot hcatalog hm
  have hm₁ : m.IsIn bound (w₁.storage.bytes? place) := by rwa [hstorage]
  have hlookup := hloaded.lookup name
  rw [perform, getVariable, bind_assoc, exec_bind_ok hload, bind_assoc,
    exec_bind_ok (exec_heap _)]
  cases hv : w₁.heap.lookup c name with
  | none =>
    rw [hv] at hlookup
    cases hs : m.lookup name with
    | none => exact ⟨hloaded.grows, m, .getMissing hs, hm₁⟩
    | some s =>
      rw [hs] at hlookup
      cases hlookup
  | some v =>
    rw [hv] at hlookup
    cases hs : m.lookup name with
    | none =>
      rw [hs] at hlookup
      cases hlookup
    | some s =>
      rw [hs] at hlookup
      cases hlookup with
      | some hshows => exact ⟨hloaded.grows, m, .get hs hshows, hm₁⟩

include hmode hbound

/-- Setting a variable: either the value has a copy, or the context that is to hold it has no stored
form, too. -/
theorem set_done {name : Text} {v : Value} (hname : name.length ≤ 2 ^ 28)
    (hold : ∀ d, w.heap.Reaches v (.context d) → d < w.heap.contexts.size)
    (hv : w.heap.Storable bound v ∨ w.heap.Unstorable v)
    (hsize : ∀ d, (((g.setVariable name v).exec w).2.heap.context d).vars.length < 2 ^ 63) :
    Done bound g place m (.set name v) w ((g.perform (.set name v)).exec w) := by
  obtain ⟨c, w₁, hload, hstorage, hloaded⟩ := load_stored hslot hcatalog hm
  rw [setVariable_exec hload, save_heap] at hsize
  have hgrows : w.heap.Grows (w₁.heap.setVariable c name v) := hloaded.grows_update _
  rcases hv with hv | hv
  · obtain ⟨s, hs, hstorable, -⟩ := hv.written
    obtain ⟨-, hnodup, -⟩ := StoredMap.storable_iff.mp hm.storable
    have hmap : (w₁.heap.setVariable c name v).HoldsMap c (m.put name s) :=
      hloaded.set hnodup hs hold
    have hput : StoredMap.Storable (m.put name s) bound :=
      hm.storable.put hname hstorable (List.Forall₂.length_eq hmap ▸ hsize c)
    obtain ⟨w₂, hsave, hheap, hstored⟩ := save_map
      (w := { w₁ with heap := w₁.heap.setVariable c name v }) (hstorage ▸ hslot) hmode hbound
      hmap.shows hput
    rw [perform, exec_bind_ok ((setVariable_exec hload name v).trans hsave)]
    exact ⟨hheap ▸ hgrows, _, .set hs, hstored⟩
  · obtain ⟨e, hsave⟩ := save_unstorable
      (w := { w₁ with heap := w₁.heap.setVariable c name v }) hmode (hloaded.set_unstorable hv)
    rw [perform, exec_bind_error ((setVariable_exec hload name v).trans hsave)]
    exact ⟨hgrows, m, .setRefused hv, by rw [hstorage]; exact hm⟩

theorem clear_done (names : List Text) :
    Done bound g place m (.clear names) w ((g.perform (.clear names)).exec w) := by
  obtain ⟨c, w₁, hload, hstorage, hloaded⟩ := load_stored hslot hcatalog hm
  have hmap := hloaded.clear names
  obtain ⟨w₂, hsave, hheap, hstored⟩ := save_map
    (w := { w₁ with heap := w₁.heap.clearNames c names }) (hstorage ▸ hslot) hmode hbound
    hmap.shows (hm.storable.without names)
  rw [perform, exec_bind_ok ((clear_exec hload names).trans hsave)]
  exact ⟨hheap ▸ hloaded.grows_clear names, _, .clear, hstored⟩

omit hcatalog in
theorem save_done {c : ContextId}
    (hc : w.heap.Storable bound (.context c) ∨ w.heap.Unstorable (.context c)) :
    Done bound g place m (.save c) w ((g.perform (.save c)).exec w) := by
  rcases hc with hc | hc
  · obtain ⟨s, hs, hstorable, -⟩ := hc.written
    obtain ⟨vars, rfl, -⟩ := Heap.shows_context hs
    obtain ⟨w₂, hsave, hheap, hstored⟩ := save_map hslot hmode hbound hs hstorable
    rw [perform, exec_bind_ok hsave]
    exact ⟨hheap ▸ Heap.Grows.refl w.heap, _, .save hs, hstored⟩
  · obtain ⟨e, hsave⟩ := save_unstorable hmode hc
    rw [perform, exec_bind_error hsave]
    exact ⟨Heap.Grows.refl w.heap, m, .saveRefused hc, hm⟩

/-- **Every operation does to the stored map what it does to a map.** -/
theorem perform_done {op : Operation} (hop : op.Sensible bound w.heap)
    (hsize : ∀ d, (((g.perform op).exec w).2.heap.context d).vars.length < 2 ^ 63) :
    Done bound g place m op w ((g.perform op).exec w) := by
  cases op with
  | load => exact load_done hslot hcatalog hm
  | save c => exact save_done hslot hmode hbound hm hop
  | get name => exact get_done hslot hcatalog hm name
  | clear names => exact clear_done hslot hmode hbound hcatalog hm names
  | set name v =>
    obtain ⟨hname, hold, hv⟩ := hop
    refine set_done hslot hmode hbound hcatalog hm hname hold hv ?_
    have hheap : ((g.perform (.set name v)).exec w).2.heap
        = ((g.setVariable name v).exec w).2.heap := by
      rw [perform, exec_bind]
      rcases (g.setVariable name v).exec w with ⟨_ | _, w'⟩ <;> rfl
    rwa [hheap] at hsize

end

/-! ### Many operations -/

/-- A call of an operation: the world that the host calls it in, except for what is stored, the
handle and the place where that keeps its bytes. -/
structure Call where
  /-- All that the operation can see but what is stored. -/
  world : World
  /-- The handle that it goes through. -/
  handle : Global
  /-- Where the handle keeps its bytes. -/
  place : Place
  op : Operation

/-- What is asked of a call when there are so many databases: the handle has one of the modes and
the usual tags, it keeps its bytes at the place, and the operation can be asked for. All values are
such that `bound` can hold them, which is the layout of the handle or the narrower one. -/
structure Call.Sensible (bound : Layout) (databases : Nat) (call : Call) : Prop where
  /-- The handle keeps its bytes at the place. -/
  slot : call.handle.slot.KeepsAt databases call.place
  /-- It writes one of the modes that have names. -/
  mode : call.handle.mode ∈ Mode.named
  /-- It can write all values that `bound` can hold. -/
  narrower : bound.Narrower call.handle.mode.layout
  /-- It knows the usual tags. -/
  catalog : call.handle.catalog = Catalog.values
  op : call.op.Sensible bound call.world.heap

/-- Makes a call when `s` is stored. -/
def Call.make (call : Call) (s : Storage) : Except Error Reply × World :=
  (call.handle.perform call.op).exec { call.world with storage := s }

/-- Makes calls one after another, each with what the one before left stored. -/
def makeAll : List Call → Storage → List (Except Error Reply × World)
  | [], _ => []
  | call :: rest, s =>
    let out := call.make s
    out :: makeAll rest out.2.storage

/-- The calls do to maps, one at each place, what was made of them when `s` was stored first: each
answers as on the map of its place, leaves the contexts that there were as they are, touches no
other place, and touches nothing if it fails. -/
inductive Follow : (maps : Place → StoredMap) → (s : Storage) → List Call →
    List (Except Error Reply × World) → Prop where
  | nil {maps : Place → StoredMap} {s : Storage} : Follow maps s [] []
  /-- One call does its operation to the map of its place, and the others follow. -/
  | cons {maps : Place → StoredMap} {s : Storage} {call : Call} {calls : List Call}
    {out : Except Error Reply × World} {outs : List (Except Error Reply × World)} {m : StoredMap} :
    call.op.Does call.world.heap call.handle.mode.layout (maps call.place) out.1 out.2.heap m →
    call.world.heap.Grows out.2.heap →
    (∀ e, out.1 = .error e → out.2.storage = s) →
    (∀ q, q ≠ call.place → out.2.storage.bytes? q = s.bytes? q) →
    Follow (Function.update maps call.place m) out.2.storage calls outs →
    Follow maps s (call :: calls) (out :: outs)

/-- What is stored everywhere is a map. -/
def Represents (bound : Layout) (s : Storage) (maps : Place → StoredMap) : Prop :=
  ∀ p, (maps p).IsIn bound (s.bytes? p)

/-- **A call keeps all maps**: it does its operation to the one at its place. -/
theorem Call.make_follows {call : Call} {s : Storage} {maps : Place → StoredMap}
    (hcall : call.Sensible bound s.databases.size) (hmaps : Represents bound s maps)
    (hsize : ∀ d, ((call.make s).2.heap.context d).vars.length < 2 ^ 63) :
    ∃ m, Represents bound (call.make s).2.storage (Function.update maps call.place m) ∧
      (call.make s).2.storage.databases.size = s.databases.size ∧
      ∀ calls outs, Follow (Function.update maps call.place m) (call.make s).2.storage calls outs →
        Follow maps s (call :: calls) (call.make s :: outs) := by
  obtain ⟨hgrows, m, hdoes, hstored⟩ := perform_done
    (w := { call.world with storage := s }) hcall.slot hcall.mode hcall.narrower hcall.catalog
    (hmaps call.place) hcall.op hsize
  obtain ⟨hfailed, hothers, hdatabases⟩ := perform_touches
    (w := { call.world with storage := s }) hcall.slot call.op
  refine ⟨m, fun p => ?_, hdatabases, fun calls outs hrest =>
    .cons hdoes hgrows hfailed hothers hrest⟩
  by_cases hp : p = call.place
  · subst hp
    rw [Function.update_self]
    exact hstored
  · rw [Function.update_of_ne hp]
    exact (hothers p hp).symm ▸ hmaps p

theorem makeAll_follows {calls : List Call} {s : Storage} {maps : Place → StoredMap}
    (hcalls : ∀ call ∈ calls, call.Sensible bound s.databases.size)
    (hmaps : Represents bound s maps)
    (hsize : ∀ out ∈ makeAll calls s, ∀ d, (out.2.heap.context d).vars.length < 2 ^ 63) :
    Follow maps s calls (makeAll calls s) := by
  induction calls generalizing s maps with
  | nil => exact .nil
  | cons call calls ih =>
    obtain ⟨hcall, hrest⟩ := List.forall_mem_cons.mp hcalls
    obtain ⟨hout, houts⟩ := List.forall_mem_cons.mp hsize
    obtain ⟨m, hmaps', hdatabases, hfollow⟩ := call.make_follows hcall hmaps hout
    exact hfollow _ _ (ih (fun c hc => hdatabases ▸ hrest c hc) hmaps' houts)

/-- **The global context refines an ordered map.** Where nothing is stored at first, any calls one
after another, through any handles, answer as operations on ordered maps that are empty at first,
one at each place. A call that fails leaves what is stored as it was, and no call touches another
place. Contexts must not have more variables than fit in memory. -/
theorem calls_follow_maps {bound : Layout} {calls : List Call} {s : Storage}
    (hs : ∀ p, s.bytes? p = none)
    (hcalls : ∀ call ∈ calls, call.Sensible bound s.databases.size)
    (hsize : ∀ out ∈ makeAll calls s, ∀ d, (out.2.heap.context d).vars.length < 2 ^ 63) :
    Follow (fun _ => []) s calls (makeAll calls s) :=
  makeAll_follows hcalls (fun p => by rw [hs]; exact .nothing rfl) hsize

/-- A call through a handle of a mode on the first cell of memory. -/
def Call.inCell (mode : Mode) (op : Operation) : Call :=
  ⟨{}, { slot := .memory 0, mode }, .cell 0, op⟩

/-- Calls through handles of four modes: a handle has no stored form, and one name is not set. -/
def fourModes : List Call :=
  [.inCell .text (.set "a" (.int 7)), .inCell .compressed (.set "h" (.handle "printer")),
    .inCell .binary (.set "b" (.text "x")), .inCell .raw (.get "a"), .inCell .text (.get "h")]

theorem Call.inCell_sensible {mode : Mode} {op : Operation} (hmode : mode ∈ Mode.named)
    (hop : op.Sensible .lines {}) : (Call.inCell mode op).Sensible .lines 0 :=
  ⟨.memory 0, hmode, .inr rfl, rfl, hop⟩

/-- A value that holds nothing and is no context may be set. -/
theorem Operation.set_sensible (name : Text) (v : Value) (hname : name.length ≤ 2 ^ 28)
    (hholds : ∀ w, ¬ Heap.Holds {} v w) (hne : ∀ d, v ≠ .context d)
    (hv : v.Fits {} .lines ∨ ∃ t, v = .handle t) : (Operation.set name v).Sensible .lines {} := by
  refine ⟨hname, fun d hd => ?_, ?_⟩
  · rcases Relation.ReflTransGen.cases_head hd with heq | ⟨w, hw, -⟩
    · exact absurd heq (hne d)
    · exact absurd hw (hholds w)
  · rcases hv with hfits | ⟨t, rfl⟩
    · exact .inl (.of_parts hfits fun w hw => absurd hw (hholds w))
    · exact .inr (.inl ⟨t, .refl⟩)

/-- The third call sets a second variable beside the one that another mode has stored, and the
fourth one finds the first. -/
theorem fourModes_follow :
    Follow (fun _ => []) {} fourModes (makeAll fourModes {}) ∧
      (makeAll fourModes {}).map (fun out => out.1.isOk) = [true, false, true, true, false] := by
  have hcalls : ∀ call ∈ fourModes, call.Sensible .lines 0 := by
    have hint := Operation.set_sensible "a" (.int 7) (by decide)
      (fun _ hw => by cases hw) (fun _ h => by cases h) (.inl trivial)
    have hhandle := Operation.set_sensible "h" (.handle "printer") (by decide)
      (fun _ hw => by cases hw) (fun _ h => by cases h) (.inr ⟨_, rfl⟩)
    have htext := Operation.set_sensible "b" (.text "x") (by decide)
      (fun _ hw => by cases hw) (fun _ h => by cases h)
      (.inl (show (Text.ofString "x").length ≤ 2 ^ 28 by decide))
    simp only [fourModes, List.forall_mem_cons]
    exact ⟨Call.inCell_sensible (by decide) hint, Call.inCell_sensible (by decide) hhandle,
      Call.inCell_sensible (by decide) htext, Call.inCell_sensible (by decide) trivial,
      Call.inCell_sensible (by decide) trivial, fun _ h => by cases h⟩
  have hall : (makeAll fourModes {}).all
      (fun out => out.2.heap.contexts.all fun ctx => ctx.vars.length < 2 ^ 63) = true := by
    decide +kernel
  have hsize : ∀ out ∈ makeAll fourModes {}, ∀ d, (out.2.heap.context d).vars.length < 2 ^ 63 := by
    intro out hout d
    have hctx := Array.all_eq_true.mp (List.all_eq_true.mp hall out hout)
    unfold Heap.context
    cases hd : out.2.heap.contexts[d]? with
    | none => decide
    | some ctx =>
      obtain ⟨hlt, rfl⟩ := Array.getElem?_eq_some_iff.mp hd
      exact of_decide_eq_true (hctx d hlt)
  exact ⟨calls_follow_maps (fun p => by cases p <;> rfl) hcalls hsize, by decide +kernel⟩

/-- Whole minutes are not enough: a zone of more minutes than sixteen bits hold has no packed form,
so a handle that writes packed records refuses to store the instant, and nothing is there
afterwards. -/
theorem farEast_not_kept :
    let t : DateTime := ⟨0, 0, .offset (60 * 32768)⟩
    t.Timely ∧ t.zone.seconds = 60 * 32768 ∧
      (makeAll [.inCell .binary (.set "a" (.dateTime t)), .inCell .binary (.get "a")] {}).map
        (fun out => (out.1.isOk, out.2.storage.bytes? (.cell 0))) = [(false, none), (false, none)] :=
  ⟨⟨by decide, by decide, by decide +kernel⟩, by decide, by decide +kernel⟩

end Global

end Reckoner
