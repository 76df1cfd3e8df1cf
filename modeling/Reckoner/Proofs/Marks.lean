import Mathlib.Tactic
import Reckoner.Proofs.Cycle

/-!
# Marking contexts

Writing as it is done in place: a context is marked while its variables are being written, a
marked context is refused on entry, and a variable that holds a marked context directly is
refused before anything of its holder is written. The mark is cleared on every way out.

Such a walk finds the same cycles as one that carries along the contexts that it is inside of,
puts out the same bytes, and leaves all marks as they were. It does so from a certain depth on
whatever the depth is limited to, so that the limit is never met.
-/

namespace Reckoner

/-- The contexts that are marked. -/
abbrev Marks := ContextId → Bool

/-- A write that can set and clear marks. -/
abbrev Walk := Marks → Emission × Marks

namespace Walk

/-- A write that leaves the marks alone. -/
def emit (e : Emission) : Walk := fun marks => (e, marks)

/-- Goes on with another walk if the first one finished. -/
def andThen (a b : Walk) : Walk := fun marks =>
  let (e, marks) := a marks
  match e.error with
  | some _ => (e, marks)
  | none =>
    let (rest, marks) := b marks
    (⟨e.bytes ++ rest.bytes, rest.error⟩, marks)

/-- One walk for each item, in order. -/
def each {α : Type} (write : α → Walk) : List α → Walk
  | [] => emit .done
  | x :: rest => (write x).andThen (each write rest)

/-- A walk with a context marked. The mark is cleared whatever comes of the walk. -/
def marked (c : ContextId) (a : Walk) : Walk := fun marks =>
  let (e, marks) := a (Function.update marks c true)
  (e, Function.update marks c false)

/-- A block of fields, each with a name and a comment. -/
def block {α : Type} (layout : Layout) (write : α → Walk) (fields : List (α × Text × Text)) :
    Walk :=
  (emit (Record.count layout fields.length)).andThen
    (each (fun f => (write f.1).andThen
      ((emit (Record.scalar layout (.text f.2.1))).andThen
        (emit (Record.scalar layout (.text f.2.2))))) fields)

end Walk

namespace Value

mutual

/-- Writes a value, contexts by `nested`. The objects of the host are left out. -/
def walk (layout : Layout) (nested : ContextId → Walk) : Value → Walk
  | array elem items =>
    (Walk.emit (Record.opening layout "array")).andThen
      ((Walk.emit (Record.scalarBlock layout
        [(.text elem.name, "elem", "element kind"),
          (.int (Int64.ofNat items.length), "length", [])])).andThen
        (walkItems layout nested items))
  | list items =>
    (Walk.emit (Record.opening layout "list")).andThen
      ((Walk.emit (lengthBlock layout items.length)).andThen (walkItems layout nested items))
  | context c => (Walk.emit (Record.opening layout "context")).andThen (nested c)
  | v => Walk.emit (v.write layout ⟨fun _ => .done, fun _ => .done⟩)

/-- Writes the items of a sequence. -/
def walkItems (layout : Layout) (nested : ContextId → Walk) : List Value → Walk
  | [] => Walk.emit .done
  | v :: rest => (walk layout nested v).andThen (walkItems layout nested rest)

end

/-- Why a variable keeps its context from being written at all: it holds a marked context
directly, or a handle. -/
def markedRefusal? (marks : Marks) (name : Text) : Value → Option Error
  | context c => if marks c then some (.cycle name) else none
  | handle _ => some (.notStorable Kind.object.name)
  | _ => none

end Value

namespace Heap

/-- The walk through a context, to a depth of at most `fuel`. -/
def walkContext (h : Heap) (layout : Layout) : (fuel : Nat) → ContextId → Walk
  | 0, _ => Walk.emit (.fail (.cycle []))
  | fuel + 1, c => fun marks =>
    if marks c then (.fail (.cycle []), marks)
    else
      Walk.marked c (fun marks =>
        match (h.context c).vars.findSome? fun b => b.2.markedRefusal? marks b.1 with
        | some e => (.fail e, marks)
        | none =>
          Walk.block layout (Value.walk layout (walkContext h layout fuel))
            ((h.context c).vars.map fun b => (b.2, b.1, [])) marks) marks

/-- The walk through a value, to a depth of at most `fuel` contexts. -/
def walkValue (h : Heap) (layout : Layout) (fuel : Nat) (v : Value) : Walk :=
  v.walk layout (h.walkContext layout fuel)

end Heap

/-! ### Walks that clean up -/

/-- From the given marks the walk puts out `e` and leaves the marks as they were. -/
def Walk.Restores (a : Walk) (marks : Marks) (e : Emission) : Prop := a marks = (e, marks)

namespace Walk

variable {a b : Walk} {marks : Marks} {e f : Emission}

theorem restores_emit (e : Emission) (marks : Marks) : (emit e).Restores marks e := rfl

theorem Restores.andThen (ha : a.Restores marks e) (hb : b.Restores marks f) :
    (a.andThen b).Restores marks (e.andThen fun _ => f) := by
  unfold Restores at *
  unfold Walk.andThen Emission.andThen
  rw [ha]
  cases he : e.error with
  | some _ => simp [he]
  | none => simp [he, hb]

theorem restores_each {α : Type} {write : α → Walk} {out : α → Emission} {xs : List α}
    (h : ∀ x ∈ xs, (write x).Restores marks (out x)) :
    (each write xs).Restores marks (Emission.each out xs) := by
  induction xs with
  | nil => exact restores_emit _ _
  | cons x xs ih =>
    exact (h x List.mem_cons_self).andThen (ih fun y hy => h y (List.mem_cons_of_mem x hy))

theorem restores_block {α : Type} {layout : Layout} {write : α → Walk} {out : α → Emission}
    {fields : List (α × Text × Text)} (h : ∀ f ∈ fields, (write f.1).Restores marks (out f.1)) :
    (block layout write fields).Restores marks (Record.block layout out fields) := by
  refine (restores_emit _ _).andThen (restores_each fun f hf => ?_)
  exact (h f hf).andThen ((restores_emit _ _).andThen (restores_emit _ _))

/-- A mark that was not set before is not set after. -/
theorem Restores.marked {c : ContextId} (hc : marks c = false)
    (ha : a.Restores (Function.update marks c true) e) : (marked c a).Restores marks e := by
  unfold Restores Walk.marked at *
  rw [ha]
  simp only [Function.update_idem, Prod.mk.injEq, true_and]
  rw [← hc, Function.update_eq_self]

end Walk

/-! ### The walk and the write -/

namespace Value

variable {layout : Layout} {out : Outlet} {nested : ContextId → Walk} {marks : Marks}

/-- Between contexts a walk is a write. -/
theorem walk_restores {h : Heap} {v : Value} (hp : h.Plain v)
    (hctx : ∀ c, h.Plain (.context c) → (nested c).Restores marks (out.context c)) :
    (v.walk layout nested).Restores marks (v.write layout out) := by
  have hitems : ∀ vs : List Value, (∀ v ∈ vs, (v.walk layout nested).Restores marks
      (v.write layout out)) →
      (walkItems layout nested vs).Restores marks (writeItems layout out vs) := by
    intro vs
    induction vs with
    | nil => exact fun _ => Walk.restores_emit _ _
    | cons v vs ih =>
      intro hvs
      exact (hvs v List.mem_cons_self).andThen (ih fun w hw => hvs w (List.mem_cons_of_mem v hw))
  induction v using Value.byParts with
  | leaf a =>
    have hwalk : a.value.walk layout nested
        = Walk.emit (a.value.write layout ⟨fun _ => .done, fun _ => .done⟩) := by
      cases a <;> rw [Leaf.value, Value.walk] <;> simp
    rw [hwalk, a.write_eq, a.write_eq]
    exact Walk.restores_emit _ _
  | array elem items ih =>
    rw [Value.walk, Value.write]
    exact (Walk.restores_emit _ _).andThen ((Walk.restores_emit _ _).andThen
      (hitems items fun w hw => ih w hw (hp.of_holds (.array hw))))
  | list items ih =>
    rw [Value.walk, Value.write]
    exact (Walk.restores_emit _ _).andThen ((Walk.restores_emit _ _).andThen
      (hitems items fun w hw => ih w hw (hp.of_holds (.list hw))))
  | context c =>
    rw [Value.walk, Value.write]
    exact (Walk.restores_emit _ _).andThen (hctx c hp)
  | handle t =>
    rw [Value.walk, Value.write, Value.write]
    · exact Walk.restores_emit _ _
    all_goals simp
  | object tag o => exact absurd rfl (hp _ .refl tag o)

theorem markedRefusal_eq {inside : List ContextId} (hm : ∀ d, marks d = decide (d ∈ inside))
    (name : Text) (v : Value) : v.markedRefusal? marks name = v.refusal? inside name := by
  cases v <;> simp [markedRefusal?, refusal?, hm]

end Value

namespace Heap

variable {h : Heap} {layout : Layout}

/-- **Every way out clears the mark**: from the marks of the contexts that it is inside of, the
walk through a context puts out what the write does and restores them. -/
theorem walkContext_restores {fuel : Nat} {inside : List ContextId} {marks : Marks}
    {c : ContextId} (hp : h.Plain (.context c)) (hm : ∀ d, marks d = decide (d ∈ inside)) :
    (h.walkContext layout fuel c).Restores marks ((h.outlet layout fuel inside).context c) := by
  induction fuel generalizing inside marks c with
  | zero => exact Walk.restores_emit _ _
  | succ fuel ih =>
    unfold walkContext outlet
    by_cases hc : c ∈ inside
    · have hmark : marks c = true := by simp [hm, hc]
      simp only [Walk.Restores, if_pos hmark, if_pos hc]
    · have hmark : marks c = false := by simp [hm, hc]
      have hm' : ∀ d, Function.update marks c true d = decide (d ∈ c :: inside) := by
        intro d
        by_cases hd : d = c
        · simp [hd]
        · simp [hm, hd]
      simp only [Walk.Restores, hmark, Bool.false_eq_true, if_false, if_neg hc]
      refine Walk.Restores.marked hmark ?_
      simp only [Walk.Restores, Value.markedRefusal_eq hm']
      cases (h.context c).vars.findSome? fun b => b.2.refusal? (c :: inside) b.1 with
      | some e => rfl
      | none =>
        refine Walk.restores_block fun f hf => ?_
        obtain ⟨b, hb, rfl⟩ := List.mem_map.mp hf
        exact Value.walk_restores (hp.of_holds (.var hb)) fun d hd => ih hd hm'

/-! ### The limit of the depth -/

/-- A write that meets no object depends on the outlet at the contexts it reaches only. -/
theorem write_congr {out out' : Outlet} {v : Value} (hp : h.Plain v)
    (hout : ∀ c, h.Plain (.context c) → out.context c = out'.context c) :
    v.write layout out = v.write layout out' := by
  induction v using Value.byParts with
  | leaf a => rw [a.write_eq, a.write_eq]
  | array elem items ih =>
    have hitems : Value.writeItems layout out items = Value.writeItems layout out' items := by
      rw [Value.writeItems_eq, Value.writeItems_eq]
      exact Emission.each_congr fun w hw => ih w hw (hp.of_holds (.array hw))
    rw [Value.write, Value.write, hitems]
  | list items ih =>
    have hitems : Value.writeItems layout out items = Value.writeItems layout out' items := by
      rw [Value.writeItems_eq, Value.writeItems_eq]
      exact Emission.each_congr fun w hw => ih w hw (hp.of_holds (.list hw))
    rw [Value.write, Value.write, hitems]
  | context c => rw [Value.write, Value.write, hout c hp]
  | handle t => rw [Value.write, Value.write]
  | object tag o => exact absurd rfl (hp _ .refl tag o)

/-- **The limit is never met**: with enough fuel, the amount of it makes no difference. -/
theorem outlet_fuel {fuel fuel' : Nat} {inside : List ContextId} {c : ContextId}
    (hin : h.Inside inside) (hf : h.Enough fuel inside) (hf' : h.Enough fuel' inside)
    (hp : h.Plain (.context c)) :
    (h.outlet layout fuel inside).context c = (h.outlet layout fuel' inside).context c := by
  induction fuel generalizing fuel' inside c with
  | zero =>
    obtain ⟨k, hk⟩ := hf.pos hin
    omega
  | succ fuel ih =>
    obtain ⟨fuel', rfl⟩ := hf'.pos hin
    unfold outlet
    by_cases hc : c ∈ inside
    · simp only [if_pos hc]
    · simp only [if_neg hc]
      cases (h.context c).vars.findSome? fun b => b.2.refusal? (c :: inside) b.1 with
      | some e => rfl
      | none =>
        refine Record.block_congr fun f hf' => ?_
        obtain ⟨b, hb, rfl⟩ := List.mem_map.mp hf'
        exact write_congr (hp.of_holds (.var hb)) fun d hd =>
          ih (hin.cons hc hb) (hf.cons c) (Enough.cons ‹_› c) hd

/-! ### Cycles -/

/-- From a heap without marks the walk is the write, and leaves no marks. -/
theorem walkValue_eq {fuel : Nat} {v : Value} (hf : h.depthBound ≤ fuel) (hp : h.Plain v) :
    h.walkValue layout fuel v (fun _ => false)
      = (h.writeValue layout (some v), fun _ => false) := by
  have hwalk : (h.walkValue layout fuel v).Restores (fun _ => false)
      (v.write layout (h.outlet layout fuel [])) :=
    Value.walk_restores hp fun c hc => walkContext_restores hc (by simp)
  have hfuel : v.write layout (h.outlet layout fuel []) = h.writeValue layout (some v) :=
    write_congr hp fun c hc =>
      outlet_fuel (inside_nil h) (enough_depthBound hf) (enough_depthBound le_rfl) hc
  rw [← hfuel]
  exact hwalk

/-- **Cycles are detected, and all marks cleared.** For every heap and every value whose parts can
be written: the walk from a heap without marks ends with the result of `writeValue` and without
marks, at every depth from a bound on, and so does any walk after it. It fails with a cycle if and
only if a context that contains itself can be reached; otherwise it puts out the bytes of the
value with every context written out wherever it is held. -/
theorem writeValue_cycle (h : Heap) (layout : Layout) (v : Value)
    (hw : ∀ w, h.Reaches v w → w.Writable layout) :
    (∀ fuel, h.depthBound ≤ fuel →
      h.walkValue layout fuel v (fun _ => false)
        = (h.writeValue layout (some v), fun _ => false) ∧
      ∀ w, h.Plain w → h.walkValue layout fuel w (h.walkValue layout fuel v (fun _ => false)).2
        = (h.writeValue layout (some w), fun _ => false)) ∧
    ((∃ name, (h.writeValue layout (some v)).error = some (.cycle name)) ↔ h.ReachesCycle v) ∧
    (¬ h.ReachesCycle v → ∃ s, h.Shows (fun _ => True) v s ∧
      h.writeValue layout (some v) = ⟨s.bytes layout, none⟩) := by
  have hp : h.Plain v := plain_of_writable hw
  have henough : h.Enough h.depthBound [] := enough_depthBound le_rfl
  have hfailed : ∀ {e}, (h.writeValue layout (some v)).error = some e → h.Blames v e := fun he =>
    write_failed (inside_nil h) henough (fun d hd => by cases hd) hw he
  refine ⟨fun fuel hf => ⟨walkValue_eq hf hp, fun w hpw => ?_⟩, ⟨?_, ?_⟩, ?_⟩
  · rw [walkValue_eq hf hp]
    exact walkValue_eq hf hpw
  · rintro ⟨name, he⟩
    exact (hfailed he).2
  · intro hc
    cases he : (h.writeValue layout (some v)).error with
    | none => exact absurd he (write_cyclic hp hc)
    | some e =>
      obtain ⟨name, rfl⟩ := (hfailed he).1
      exact ⟨name, rfl⟩
  · exact fun hc => write_acyclic henough hw hc

/-- A context that holds itself, for which the theorem says that writing finds the cycle. -/
def selfHolder : Heap := ⟨#[{ vars := [("me", .context 0)] }], #[]⟩

theorem selfHolder_cycle : ∃ name,
    (selfHolder.writeValue .packed (some (.context 0))).error = some (.cycle name) := by
  have hvars : ∀ c, ∀ b ∈ (selfHolder.context c).vars, c = 0 ∧ b.2 = .context 0 := by
    intro c b hb
    have hc : c < 1 := lt_of_var hb
    obtain rfl : c = 0 := Nat.lt_one_iff.mp hc
    obtain rfl := List.mem_singleton.mp hb
    exact ⟨rfl, rfl⟩
  have hreach : ∀ w, selfHolder.Reaches (.context 0) w → w = .context 0 := by
    intro w hw
    induction hw with
    | refl => rfl
    | tail _ hstep ih =>
      subst ih
      cases hstep with
      | var hb => exact (hvars _ _ hb).2
  refine (writeValue_cycle selfHolder .packed (.context 0) fun w hw => ?_).2.1.mpr ?_
  · rw [hreach w hw]
    trivial
  · exact ⟨0, .refl, .single (.var (show (("me" : Text), Value.context 0) ∈ _ from
      List.mem_singleton_self _))⟩

end Heap

end Reckoner
