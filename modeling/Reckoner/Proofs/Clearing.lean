import Mathlib.Tactic
import Reckoner.Builtin
import Reckoner.Expr.Evaluate
import Reckoner.Proofs.Invoking
import Reckoner.Proofs.Slots
import Reckoner.Proofs.StoredAgain

/-!
# Clearing variables

Variables of the current context are named by expressions, which are looked at one after another
while the variables are removed. So an argument that is no name comes too late for the variables
that were named before it, and just these are gone.

Variables of the global context are named by strings. All of them are looked at first, and the
context is stored only after everything else has gone well, so a call that fails leaves what is
stored alone.
-/

namespace Reckoner

open Run

/-! ### Variables of a context -/

namespace Heap

variable (h : Heap) (c : ContextId)

/-- Removes the variables with the names one after another. -/
def clearVariables (names : List Text) : Heap := names.foldl (fun h n => (h.clearVariable c n).2) h

theorem vars_clearVariables (names : List Text) : ((h.clearVariables c names).context c).vars =
    (h.context c).vars.filter fun b => b.1 ∉ names := by
  induction names generalizing h with
  | nil => simp [clearVariables]
  | cons name names ih =>
    rw [clearVariables, List.foldl_cons, ← clearVariables, ih, vars_clearVariable,
      List.filter_filter]
    refine List.filter_congr fun b _ => ?_
    by_cases hb : b.1 = name <;> simp [hb]

theorem context_clearVariables_of_ne {d : ContextId} (hd : d ≠ c) (names : List Text) :
    (h.clearVariables c names).context d = h.context d := by
  induction names generalizing h with
  | nil => rfl
  | cons name names ih => exact (ih _).trans (context_update_of_ne hd _)

end Heap

/-! ### Calls with expressions -/

namespace Function

variable {f : Function}

/-- Without defaults and parameters that take arrays, the body gets the arguments as they are. -/
theorem complete_plain (hdefaults : ∀ p ∈ f.params, p.default = none)
    (harrays : ∀ i, (f.spec i).toArray = false) (given : List Argument) :
    f.complete given = given := by
  have hnone : f.defaults given.length = [] := by
    rw [defaults, List.map_eq_nil_iff, List.reverse_eq_nil_iff, List.dropWhile_eq_nil_iff]
    intro p hp
    rw [hdefaults p (List.mem_of_mem_drop (List.mem_reverse.mp hp))]
    rfl
  have hsame : f.promote = fun _ a => a := by
    funext i a
    rw [promote, if_neg (by rw [harrays i]; decide)]
  rw [complete, hnone, List.append_nil, hsame]
  exact List.ext_getElem? fun i => by simp

end Function

namespace Builtin

variable {env : Environment}

/-- The argument for an expression that is not evaluated. -/
def deferred (e : Expr) : Argument := { deferred := some ⟨e, e.eval builtins⟩ }

theorem clear_spec (i : Nat) : clear.spec i = { name := "variable", isLazy := true } := by
  cases i <;> rfl

theorem bind_clear (i : Nat) (es : List Expr) :
    clear.bind env i (Expr.deferAll builtins es) = pure (es.map deferred) := by
  induction es generalizing i with
  | nil => rw [Expr.deferAll]; rfl
  | cons e es ih =>
    rw [Expr.deferAll, Function.bind, Function.bindOne, clear_spec, ih]
    rfl

/-- The arguments of `clear` are handed over as they are. -/
theorem eval_clear (es : List Expr) (w : World) :
    ((Expr.call "clear" es).eval builtins env).exec w =
      (clear.body env ⟨"clear", es.map deferred⟩).exec
        { w with log := w.log ++ [.called "clear" es.length] } := by
  have hfind : builtins.find? "clear" = some clear := rfl
  have hcount (n : Nat) : clear.checkCount n = .ok () :=
    Function.checkCount_ok ⟨Nat.zero_le n, .inl rfl⟩
  have hvalues : (es.map deferred).map (·.value) = List.replicate es.length none := by
    simp [deferred, Function.comp_def]
  have hkinds : clear.checkArguments ((es.map deferred).map (·.value)) = .ok () := by
    rw [Function.checkArguments, hcount, hvalues]
    refine Function.checkKinds_ok fun i v hv => ?_
    rw [List.getElem?_replicate] at hv
    split at hv <;> cases hv
  have hcomplete : clear.complete (es.map deferred) = es.map deferred :=
    Function.complete_plain (by decide) (fun i => by rw [clear_spec]) _
  rw [Expr.eval, hfind]
  dsimp only
  rw [Function.call, hcount, exec_bind_ok (exec_result _ _), bind_clear, pure_bind, Function.run,
    hkinds, exec_bind_ok (exec_result _ _), hcomplete, exec_bind_ok (exec_report _ _),
    List.length_map]
  rfl

/-- Arguments that are names have their variables removed, and then the others are looked at. -/
theorem clearNamed_append (c : ContextId) (names : List Text) (es : List Expr) (i : Nat)
    (w : World) : (clearNamed c i ((names.map Expr.name ++ es).map deferred)).exec w =
      (clearNamed c (i + names.length) (es.map deferred)).exec
        { w with heap := w.heap.clearVariables c names } := by
  induction names generalizing i w with
  | nil => rfl
  | cons n names ih =>
    have hname : (deferred (.name n)).deferred.bind (·.expr.reference?) = some n := rfl
    rw [List.map_cons, List.cons_append, List.map_cons, clearNamed, hname]
    dsimp only
    rw [exec_bind_ok (exec_onHeap _ _), ih, List.length_cons, Nat.add_right_comm, Nat.add_assoc]
    rfl

/-- The error of `clear` for an argument that is no name. -/
def noName (i : Nat) : Error := .argumentType "clear" i [] "expression" "clear([variable], ...)"

/-- With names only, their variables are removed, or all if there are none. -/
theorem clear_names (names : List Text) (w : World) : ∃ w',
    ((Expr.call "clear" (names.map .name)).eval builtins env).exec w = (.ok none, w') ∧
      w'.heap = w.heap.clearNames env.context names := by
  rw [eval_clear]
  cases names with
  | nil => exact ⟨_, rfl, rfl⟩
  | cons n names =>
    have hrun := clearNamed_append env.context (n :: names) [] 0
      { w with log := w.log ++ [.called "clear" ((n :: names).map Expr.name).length] }
    rw [List.append_nil] at hrun
    exact ⟨_, exec_bind_ok hrun, rfl⟩

/-- An argument that is no name is an error, and the variables named before it are gone. -/
theorem clear_other (names : List Text) {e : Expr} (he : e.reference? = none) (rest : List Expr)
    (w : World) : ∃ w',
    ((Expr.call "clear" (names.map .name ++ e :: rest)).eval builtins env).exec w =
        (.error (noName names.length), w') ∧
      w'.heap = w.heap.clearVariables env.context names := by
  have hother : (deferred e).deferred.bind (·.expr.reference?) = none := he
  have hrun := clearNamed_append env.context names (e :: rest) 0
    { w with log := w.log ++ [.called "clear" (names.map Expr.name ++ e :: rest).length] }
  rw [List.map_cons, clearNamed, hother, Nat.zero_add] at hrun
  have hsome : ((names.map Expr.name ++ e :: rest).map deferred).isEmpty = false := by
    cases names <;> rfl
  rw [eval_clear]
  simp only [clear, hsome, Bool.false_eq_true, if_false]
  exact ⟨_, exec_bind_error hrun, rfl⟩

/-- Expressions are names all of them, or up to the first one that is none. -/
theorem names_or (es : List Expr) : ∃ names : List Text, es = names.map .name ∨
    ∃ e rest, es = names.map .name ++ e :: rest ∧ e.reference? = none := by
  induction es with
  | nil => exact ⟨[], .inl rfl⟩
  | cons e es ih =>
    cases he : e.reference? with
    | none => exact ⟨[], .inr ⟨e, es, rfl, he⟩⟩
    | some n =>
      obtain rfl : e = .name n := by
        cases e <;> cases he
        rfl
      obtain ⟨names, rfl | ⟨e, rest, rfl, he⟩⟩ := ih
      · exact ⟨n :: names, .inl rfl⟩
      · exact ⟨n :: names, .inr ⟨e, rest, rfl, he⟩⟩

end Builtin

/-! ### The stored context -/

namespace Global

variable {g : Global} {w w' w₁ : World} {m : StoredMap} {c : ContextId} {names : List Text}

/-- What is loaded was read from the bytes of the slot, if there is anything in it. -/
theorem openRead_of_load (hload : g.load.exec w = (.ok c, w₁)) :
    (∃ bytes, g.slot.openRead w.storage = .ok (.ok bytes)) ∨
      ∃ e, g.slot.openRead w.storage = .error e ∧ e.isMissing = true := by
  rw [load_exec] at hload
  cases hopen : g.slot.openRead w.storage with
  | error e =>
    rw [hopen] at hload
    cases hmissing : e.isMissing with
    | true => exact .inr ⟨e, rfl, hmissing⟩
    | false =>
      simp only [hmissing, Bool.false_eq_true, if_false] at hload
      cases hload
  | ok content =>
    cases content with
    | ok bytes => exact .inl ⟨bytes, rfl⟩
    | error e =>
      rw [hopen] at hload
      cases hload

/-- **Loading gives the map that the bytes of the slot hold.** -/
theorem loaded_of_load (hcatalog : g.catalog = Catalog.values)
    (hm : m.HeldIn (g.slot.stored? w.storage)) (hload : g.load.exec w = (.ok c, w₁)) :
    w.heap.Loaded w₁.heap c m := by
  obtain ⟨c', w₁', hload', -, hloaded⟩ : ∃ c w₁, g.load.exec w = (.ok c, w₁) ∧
      w₁.storage = w.storage ∧ w.heap.Loaded w₁.heap c m := by
    obtain ⟨bytes, hopen⟩ | ⟨e, hopen, hmissing⟩ := openRead_of_load hload
    · rw [Slot.stored?_eq_some.mpr hopen] at hm
      exact load_bytes hopen hcatalog hm
    · rw [Slot.stored?, hopen] at hm
      cases hm with
      | nothing hnil =>
        subst hnil
        exact load_missing hopen hmissing
  rw [hload] at hload'
  cases hload'
  exact hloaded

/-- Clearing fails without touching what is stored, or stores what is left of the context that was
loaded. -/
theorem clear_cases (g : Global) (names : List Text) (w : World) :
    (∃ e w', (g.clear names).exec w = (.error e, w') ∧ w'.storage = w.storage) ∨
      ∃ c w₁ bytes vars, g.load.exec w = (.ok c, w₁) ∧
        g.encode (w₁.heap.clearNames c names) c = .ok bytes ∧
        (g.clear names).exec w = settle g.mode vars
          { w₁ with heap := w₁.heap.clearNames c names } (g.slot.store bytes w.storage) := by
  have hstorage := load_storage g w
  rcases hload : g.load.exec w with ⟨e | c, w₁⟩
  · rw [hload] at hstorage
    exact .inl ⟨e, w₁, by rw [clear, exec_bind_error hload], hstorage⟩
  · rw [hload] at hstorage
    rw [clear_exec hload, save_exec]
    dsimp only at hstorage ⊢
    cases hencode : g.encode (w₁.heap.clearNames c names) c with
    | error e => exact .inl ⟨_, _, rfl, hstorage⟩
    | ok bytes => exact .inr ⟨c, w₁, bytes, _, rfl, hencode, by rw [hstorage]⟩

variable (hslot : g.slot.Real w.storage.databases.size)

include hslot

/-- **If clearing fails, what is stored is as before.** -/
theorem clear_failed {e : Error} (h : (g.clear names).exec w = (.error e, w')) :
    g.slot.stored? w'.storage = g.slot.stored? w.storage := by
  obtain ⟨_, _, hexec, hstorage⟩ | ⟨c, w₁, bytes, vars, -, -, hexec⟩ := g.clear_cases names w
  · rw [h] at hexec
    cases hexec
    rw [hstorage]
  · rw [h] at hexec
    rcases hstore : g.slot.store bytes w.storage with ⟨fault | _, s⟩
    · rw [hstore] at hexec
      have hs := Slot.stored_of_error hslot hstore
      cases fault <;> cases hexec <;> exact hs
    · rw [hstore] at hexec
      cases hexec

/-- **If clearing succeeds, the stream of what is left of the map is stored.** -/
theorem clear_succeeded (hcatalog : g.catalog = Catalog.values)
    (hm : m.HeldIn (g.slot.stored? w.storage)) (h : (g.clear names).exec w = (.ok (), w')) :
    g.mode ∈ Mode.named ∧ g.slot.stored? w'.storage = some (Stream.assemble g.mode
      Stream.defaultName ((Snapshot.context (m.without names)).bytes g.mode.layout)) := by
  obtain ⟨_, _, hexec, -⟩ | ⟨c, w₁, bytes, vars, hload, hencode, hexec⟩ := g.clear_cases names w
  · rw [h] at hexec
    cases hexec
  · rw [h] at hexec
    have hmap := (loaded_of_load hcatalog hm hload).clear names
    obtain ⟨hmode, hbytes, -⟩ := encode_ok hmap.shows hencode
    rcases hstore : g.slot.store bytes w.storage with ⟨fault | _, s⟩
    · rw [hstore] at hexec
      cases fault <;> cases hexec
    · rw [hstore] at hexec
      cases hexec
      exact ⟨hmode, hbytes ▸ Slot.stored_of_ok hslot hstore⟩

end Global

/-! ### Calls with values -/

section

variable {α β : Type}

/-- Results for all items are results for each. -/
theorem forall₂_of_mapM {f : α → Except Error β} {xs : List α} {ys : List β}
    (h : xs.mapM f = .ok ys) : List.Forall₂ (fun x y => f x = .ok y) xs ys := by
  induction xs generalizing ys with
  | nil =>
    cases h
    exact .nil
  | cons x xs ih =>
    rw [List.mapM_cons] at h
    obtain ⟨y, hy, h⟩ := ok_of_bind h
    obtain ⟨rest, hrest, h⟩ := ok_of_bind h
    cases h
    exact .cons hy (ih hrest)

end

theorem Arguments.text_ok {args : Arguments} {i : Nat} {t : Text} (h : args.text i = .ok t) :
    args.value? i = some (.text t) := by
  unfold text at h
  split at h
  · next t' hvalue =>
    cases h
    exact hvalue
  · cases h

namespace Builtin

variable {env : Environment} {g : Global}

theorem bound_clearGlobal (vs : List (Option Value)) :
    clearGlobal.bound vs = vs.map fun v => { value := v } := by
  have hspec : ∀ i, clearGlobal.spec i = { name := "name", types := [.text] } := by
    intro i
    cases i <;> rfl
  have hreceive : clearGlobal.receive = fun _ v => { value := v } := by
    funext i v
    rw [Function.receive, hspec]
    rfl
  rw [Function.bound, Function.complete_plain (by decide) fun i => by rw [hspec], hreceive]
  exact List.ext_getElem? fun i => by simp

/-- Texts of all arguments mean that the values are these texts. -/
theorem values_of_texts {func : Text} {vs : List (Option Value)} {names : List Text}
    (h : (List.range vs.length).mapM (Arguments.text ⟨func, vs.map fun v => { value := v }⟩) =
      .ok names) : vs = names.map fun n => some (.text n) := by
  have hall := forall₂_of_mapM h
  have hlen : vs.length = names.length := by simpa using hall.length_eq
  refine List.ext_getElem (by rwa [List.length_map]) fun i hi hi' => ?_
  have htext := Arguments.text_ok ((List.forall₂_iff_get.mp hall).2 i (by simpa) (by omega))
  simpa [Arguments.value?, List.getElem?_eq_getElem hi] using htext

/-- All arguments are looked at before the stored context is loaded. -/
theorem clearGlobal_cases (henv : env.global = some g) (vs : List (Option Value)) (w : World) :
    (∃ e w', (clearGlobal.invoke env vs).exec w = (.error e, w') ∧ w'.storage = w.storage) ∨
      ∃ names log, vs = names.map (fun n => some (.text n)) ∧
        (clearGlobal.invoke env vs).exec w =
          (do g.clear names; return none : Run (Option Value)).exec { w with log } := by
  rcases clearGlobal.rejects_or vs with ⟨e, he⟩ | ⟨hcount, hkinds⟩
  · exact .inl ⟨e, w, Function.exec_invoke_error env he w, rfl⟩
  · rw [Function.exec_invoke env hcount hkinds, bound_clearGlobal, List.length_map]
    have hglobal : requireGlobal env = pure g := by rw [requireGlobal, henv]
    simp only [clearGlobal, hglobal, pure_bind, Arguments.length, List.length_map]
    cases hnames : (List.range vs.length).mapM
        (Arguments.text ⟨"clearglobal", vs.map fun v => { value := v }⟩) with
    | error e => exact .inl ⟨e, _, exec_bind_error (exec_result _ _), rfl⟩
    | ok names =>
      exact .inr ⟨names, _, values_of_texts hnames, exec_bind_ok (exec_result _ _)⟩

/-! ### The laws -/

/-- What a call of `clear` with the expressions makes of a heap, if `c` is the current context. -/
inductive Clears (c : ContextId) (h : Heap) :
    List Expr → Except Error (Option Value) → Heap → Prop where
  /-- The variables that are named are gone, or all of them if there are no arguments. -/
  | names {names : List Text} {h' : Heap} :
    (h'.context c).vars =
      (if names = [] then [] else (h.context c).vars.filter fun b => b.1 ∉ names) →
    (∀ d, d ≠ c → h'.context d = h.context d) → Clears c h (names.map .name) (.ok none) h'
  /-- An argument is no name. The variables that were named before it are gone, so nothing has
  changed if and only if there was none. -/
  | other {names : List Text} {e : Expr} {rest : List Expr} {h' : Heap} : e.reference? = none →
    (h'.context c).vars = (h.context c).vars.filter (fun b => b.1 ∉ names) →
    ((h'.context c).vars = (h.context c).vars ↔ ∀ n ∈ names, n ∉ (h.context c).names) →
    (∀ d, d ≠ c → h'.context d = h.context d) →
    Clears c h (names.map .name ++ e :: rest) (.error (noName names.length)) h'

/-- What a call of `clearglobal` with the values makes of what is stored. -/
inductive ClearsGlobal (g : Global) (s : Storage) :
    List (Option Value) → Except Error (Option Value) → Storage → Prop where
  /-- An error leaves the bytes alone. -/
  | failed {vs : List (Option Value)} {e : Error} {s' : Storage} :
    g.slot.stored? s' = g.slot.stored? s → ClearsGlobal g s vs (.error e) s'
  /-- The values are strings, and the bytes are the stream of the map that was stored without these
  names, or of the empty map if there are no values. Just that is read back from them if the layout
  has not changed, and what the new one makes of it if that keeps the points in time. -/
  | done {names : List Text} {s' : Storage} :
    (∀ (m : StoredMap) (layout : Layout), g.catalog = Catalog.values →
      m.HeldAs layout (g.slot.stored? s) →
      g.slot.stored? s' = some (Stream.assemble g.mode Stream.defaultName
        ((Snapshot.context (m.without names)).bytes g.mode.layout)) ∧
      (layout = g.mode.layout → (m.without names).HeldAs layout (g.slot.stored? s')) ∧
      ((∀ t, (Snapshot.context (m.without names)).Dated t → t.Kept g.mode.layout) →
        StoredMap.HeldAs ((m.without names).normal g.mode.layout) g.mode.layout
          (g.slot.stored? s'))) →
    ClearsGlobal g s (names.map fun n => some (.text n)) (.ok none) s'

theorem clears (env : Environment) (es : List Expr) (w : World) : ∃ r w',
    ((Expr.call "clear" es).eval builtins env).exec w = (r, w') ∧
      Clears env.context w.heap es r w'.heap := by
  obtain ⟨names, rfl | ⟨e, rest, rfl, he⟩⟩ := names_or es
  · obtain ⟨w', hexec, hheap⟩ := clear_names names w
    refine ⟨_, w', hexec, ?_⟩
    rw [hheap]
    cases names with
    | nil => exact .names (Heap.vars_clear _ _) fun d hd => Heap.context_update_of_ne hd _
    | cons n names =>
      exact .names (Heap.vars_clearVariables _ _ _) fun d hd =>
        Heap.context_clearVariables_of_ne _ _ hd _
  · obtain ⟨w', hexec, hheap⟩ := clear_other names he rest w
    refine ⟨_, w', hexec, ?_⟩
    rw [hheap]
    have hvars := w.heap.vars_clearVariables env.context names
    refine .other he hvars ?_ fun d hd => Heap.context_clearVariables_of_ne _ _ hd _
    rw [hvars, List.filter_eq_self]
    simp only [decide_eq_true_eq, Context.names, List.mem_map, not_exists, not_and]
    exact ⟨fun h n hn b hb heq => h b hb (heq ▸ hn), fun h b hb hn => h _ hn b hb rfl⟩

theorem clearsGlobal {env : Environment} {g : Global} {w : World} (henv : env.global = some g)
    (hslot : g.slot.Real w.storage.databases.size) (vs : List (Option Value)) : ∃ r w',
    (clearGlobal.invoke env vs).exec w = (r, w') ∧ ClearsGlobal g w.storage vs r w'.storage := by
  obtain ⟨e, w', hexec, hstorage⟩ | ⟨names, log, rfl, hexec⟩ := clearGlobal_cases henv vs w
  · exact ⟨_, w', hexec, .failed (by rw [hstorage])⟩
  · rcases hclear : (g.clear names).exec { w with log } with ⟨e | ⟨⟩, w'⟩
    · rw [exec_bind_error hclear] at hexec
      exact ⟨_, w', hexec, .failed (Global.clear_failed (w := { w with log }) hslot hclear)⟩
    · rw [exec_bind_ok hclear, exec_pure] at hexec
      refine ⟨_, w', hexec, .done fun m layout hcatalog hm => ?_⟩
      obtain ⟨hmode, hbytes⟩ :=
        Global.clear_succeeded (w := { w with log }) hslot hcatalog hm.held hclear
      rw [hbytes]
      refine ⟨rfl, fun hlayout => ?_, hm.without_dated hmode⟩
      subst hlayout
      exact hm.without hmode names

/-- **What clearing variables does**, in every world and surroundings, with any arguments. Of the
global context it is asked that its slot is a real one. -/
theorem clear_variables (env : Environment) (w : World) :
    (∀ es : List Expr, ∃ r w', ((Expr.call "clear" es).eval builtins env).exec w = (r, w') ∧
      Clears env.context w.heap es r w'.heap) ∧
    ∀ g, env.global = some g → g.slot.Real w.storage.databases.size → ∀ vs, ∃ r w',
      (clearGlobal.invoke env vs).exec w = (r, w') ∧ ClearsGlobal g w.storage vs r w'.storage :=
  ⟨fun es => clears env es w, fun _ henv hslot vs => clearsGlobal henv hslot vs⟩

/-- A program whose context has a variable, and whose global context is a text in memory. -/
def notebook : Environment := { context := 0, global := some { slot := .memory 0, mode := .text } }

/-- A world for it, with two global variables. -/
def notebookWorld : World where
  heap := { contexts := #[{ vars := [("x", .int 1)] }] }
  storage := { cells := [(0, Stream.assemble .text Stream.defaultName
    ((Snapshot.context [("a", .leaf (.int 1)), ("b", .leaf (.int 2))]).bytes .lines))] }

/-- Clearing the first global variable leaves the second one, to be read by everybody. -/
theorem firstGlobal_cleared : ∃ w',
    (clearGlobal.invoke notebook [some (.text "a")]).exec notebookWorld = (.ok none, w') ∧
      StoredMap.HeldAs [("b", .leaf (.int 2))] .lines ((Slot.memory 0).stored? w'.storage) := by
  have hok : ((clearGlobal.invoke notebook [some (.text "a")]).exec notebookWorld).1.isOk =
      true := by decide +kernel
  have hint : ∀ n, (Snapshot.leaf (.int n)).Kept .lines := fun n => .leaf trivial
  have hheld : StoredMap.HeldAs [("a", .leaf (.int 1)), ("b", .leaf (.int 2))] .lines
      ((Slot.memory 0).stored? notebookWorld.storage) :=
    .stream (show Mode.text ∈ Mode.named by decide) rfl
      (.context (by decide) (by decide) (by decide) (by simp [hint])) rfl
  obtain ⟨r, w', hexec, hclears⟩ :=
    (clear_variables notebook notebookWorld).2 _ rfl (.memory 0) [some (.text "a")]
  rw [hexec] at hok
  generalize hvs : [some (Value.text "a")] = vs at hexec hclears ⊢
  cases hclears with
  | failed => cases hok
  | @done names _ hdone =>
    obtain rfl : names = ["a"] := by simpa using hvs.symm
    exact ⟨w', hexec, (hdone _ _ rfl hheld).2.1 rfl⟩

/-- The variable is gone although its removal comes from a call that fails. -/
theorem clear_failed_late : ∃ e w',
    ((Expr.call "clear" [.name "x", .const (some (.int 1))]).eval builtins notebook).exec
      notebookWorld = (.error e, w') ∧
    (w'.heap.context 0).names ≠ (notebookWorld.heap.context 0).names :=
  ⟨_, _, rfl, by decide⟩

end Builtin

end Reckoner
