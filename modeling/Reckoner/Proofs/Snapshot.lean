import Mathlib.Tactic
import Reckoner.Stream.Store

/-!
# Values apart from the heap

A value refers to contexts by their numbers, so what it holds depends on the heap. A `Snapshot`
is what a value holds with every context written out, and `Heap.Shows` says that a value holds
just that. A value that contains itself has no snapshot, because snapshots are finite.

The records of a snapshot are listed flat: each is a tag with a payload or a tag alone. How they
are laid out as bytes is a question about single records.
-/

namespace Reckoner

/-- A value that holds no other values. -/
inductive Leaf where
  | int (n : Int64)
  | real (x : Binary64)
  | bool (b : Bool)
  | text (s : Text)
  | dateTime (t : DateTime)
  | timeSpan (nanos : Int64)
  | point (p : Point)
  | vector (xs : List Binary64)
  | pointVector (ps : List Point)
  | matrix (m : Matrix)
  deriving DecidableEq, Repr

namespace Leaf

/-- The leaf as a value. -/
def value : Leaf → Value
  | int n => .int n
  | real x => .real x
  | bool b => .bool b
  | text s => .text s
  | dateTime t => .dateTime t
  | timeSpan d => .timeSpan d
  | point p => .point p
  | vector xs => .vector xs
  | pointVector ps => .pointVector ps
  | matrix m => .matrix m

/-- The kind of the leaf. -/
def kind (a : Leaf) : Kind := a.value.kind

theorem value_injective {a b : Leaf} (h : a.value = b.value) : a = b := by
  cases a <;> cases b <;> simp_all [value]

theorem value_ne_array (a : Leaf) (elem : Kind) (items : List Value) :
    a.value ≠ .array elem items := by
  cases a <;> simp [value]

theorem value_ne_list (a : Leaf) (items : List Value) : a.value ≠ .list items := by
  cases a <;> simp [value]

theorem value_ne_context (a : Leaf) (c : ContextId) : a.value ≠ .context c := by
  cases a <;> simp [value]

end Leaf

/-- What a value holds, contexts written out with their variables in order. -/
inductive Snapshot where
  /-- A value that holds no other values. -/
  | leaf (a : Leaf)
  /-- A homogeneous sequence. -/
  | array (elem : Kind) (items : List Snapshot)
  /-- A heterogeneous sequence. -/
  | list (items : List Snapshot)
  /-- The variables of a context, in their order. -/
  | context (vars : List (Text × Snapshot))
  deriving Inhabited, Repr

namespace Snapshot

/-- Induction over snapshots: a property of the parts passes to the whole. -/
@[induction_eliminator]
theorem induct {P : Snapshot → Prop} (leaf : ∀ a, P (.leaf a))
    (array : ∀ elem items, (∀ s ∈ items, P s) → P (.array elem items))
    (list : ∀ items, (∀ s ∈ items, P s) → P (.list items))
    (context : ∀ vars, (∀ b ∈ vars, P b.2) → P (.context vars)) : ∀ s, P s
  | .leaf a => leaf a
  | .array elem items => array elem items fun s _ => induct leaf array list context s
  | .list items => list items fun s _ => induct leaf array list context s
  | .context vars => context vars fun b hb =>
    have : sizeOf b.2 < sizeOf b := by cases b; simp
    have := List.sizeOf_lt_of_mem hb
    induct leaf array list context b.2

/-- The kind of a value that holds the snapshot. -/
def kind : Snapshot → Kind
  | leaf a => a.kind
  | array _ _ => .array
  | list _ => .list
  | context _ => .context

/-- What a snapshot holds directly. -/
def parts : Snapshot → List Snapshot
  | leaf _ => []
  | array _ items => items
  | list items => items
  | context vars => vars.map (·.2)

theorem sizeOf_parts {s t : Snapshot} (ht : t ∈ s.parts) : sizeOf t < sizeOf s := by
  cases s with
  | leaf a => cases ht
  | array elem items =>
    have : sizeOf t < sizeOf items := List.sizeOf_lt_of_mem ht
    simp only [Snapshot.array.sizeOf_spec]
    omega
  | list items =>
    have : sizeOf t < sizeOf items := List.sizeOf_lt_of_mem ht
    simp only [Snapshot.list.sizeOf_spec]
    omega
  | context vars =>
    obtain ⟨⟨name, t⟩, hb, rfl⟩ := List.mem_map.mp ht
    have := List.sizeOf_lt_of_mem hb
    simp only [Prod.mk.sizeOf_spec] at this
    simp only [Snapshot.context.sizeOf_spec]
    omega

end Snapshot

/-- Induction over values by what they hold directly. -/
theorem Value.byParts {P : Value → Prop} (leaf : ∀ a : Leaf, P a.value)
    (array : ∀ elem items, (∀ v ∈ items, P v) → P (.array elem items))
    (list : ∀ items, (∀ v ∈ items, P v) → P (.list items))
    (context : ∀ c, P (.context c)) (handle : ∀ hostType, P (.handle hostType))
    (object : ∀ tag o, P (.object tag o)) : ∀ v, P v
  | .int n => leaf (.int n)
  | .real x => leaf (.real x)
  | .bool b => leaf (.bool b)
  | .text s => leaf (.text s)
  | .dateTime t => leaf (.dateTime t)
  | .timeSpan d => leaf (.timeSpan d)
  | .point p => leaf (.point p)
  | .vector xs => leaf (.vector xs)
  | .pointVector ps => leaf (.pointVector ps)
  | .matrix m => leaf (.matrix m)
  | .array elem items => array elem items fun v _ =>
    byParts leaf array list context handle object v
  | .list items => list items fun v _ => byParts leaf array list context handle object v
  | .context c => context c
  | .handle hostType => handle hostType
  | .object tag o => object tag o

/-! ### What a value holds -/

/-- The value `v` holds just `s`, and all contexts in it are `live`. -/
inductive Heap.Shows (h : Heap) (live : ContextId → Prop) : Value → Snapshot → Prop where
  /-- A leaf is shown by itself. -/
  | leaf {a : Leaf} {v : Value} : v = a.value → Shows h live v (.leaf a)
  /-- An array is shown by what shows its items. -/
  | array {elem : Kind} {items : List Value} {ss : List Snapshot} :
    List.Forall₂ (Shows h live) items ss → Shows h live (.array elem items) (.array elem ss)
  /-- A list is shown by what shows its items. -/
  | list {items : List Value} {ss : List Snapshot} :
    List.Forall₂ (Shows h live) items ss → Shows h live (.list items) (.list ss)
  /-- A context is shown by its names and what shows their values. -/
  | context {c : ContextId} {vars : List (Text × Snapshot)} : live c →
    (h.context c).names = vars.map (·.1) →
    List.Forall₂ (Shows h live) ((h.context c).vars.map (·.2)) (vars.map (·.2)) →
    Shows h live (.context c) (.context vars)

namespace Heap

variable {h h' : Heap} {live live' : ContextId → Prop} {v w : Value} {s t : Snapshot}

/-- Two lists that are related item by item, each item of the second to just one. -/
theorem forall₂_unique {α β : Type} {R S : α → β → Prop} {xs : List α} {ys zs : List β}
    (hr : List.Forall₂ R xs ys) (hs : List.Forall₂ S xs zs)
    (huniq : ∀ y ∈ ys, ∀ x z, R x y → S x z → y = z) : ys = zs := by
  induction hr generalizing zs with
  | nil => cases hs; rfl
  | cons hxy _ ih =>
    cases hs with
    | cons hxz hrest =>
      rw [huniq _ List.mem_cons_self _ _ hxy hxz,
        ih hrest fun y hy => huniq y (List.mem_cons_of_mem _ hy)]

/-- A list of bindings is its names and what they are bound to. -/
theorem bindings_ext {α : Type} {xs ys : List (Text × α)} (hn : xs.map (·.1) = ys.map (·.1))
    (hv : xs.map (·.2) = ys.map (·.2)) : xs = ys := by
  have hzip : ∀ zs : List (Text × α), (zs.map (·.1)).zip (zs.map (·.2)) = zs := fun zs => by
    rw [List.zip_map']
    simp
  rw [← hzip xs, ← hzip ys, hn, hv]

theorem shows_leaf {a : Leaf} (hs : h.Shows live v (.leaf a)) : v = a.value := by
  cases hs with
  | leaf hv => exact hv

theorem Shows.kind (hs : h.Shows live v s) : v.kind = s.kind := by
  cases hs with
  | leaf hv => rw [hv]; rfl
  | array _ => rfl
  | list _ => rfl
  | context _ _ _ => rfl

theorem shows_array {elem : Kind} {items : List Value} (hs : h.Shows live (.array elem items) s) :
    ∃ ss, s = .array elem ss ∧ List.Forall₂ (h.Shows live) items ss := by
  cases hs with
  | leaf hv => exact absurd hv.symm (Leaf.value_ne_array _ _ _)
  | array hs => exact ⟨_, rfl, hs⟩

theorem shows_list {items : List Value} (hs : h.Shows live (.list items) s) :
    ∃ ss, s = .list ss ∧ List.Forall₂ (h.Shows live) items ss := by
  cases hs with
  | leaf hv => exact absurd hv.symm (Leaf.value_ne_list _ _)
  | list hs => exact ⟨_, rfl, hs⟩

theorem shows_context {c : ContextId} (hs : h.Shows live (.context c) s) :
    ∃ vars, s = .context vars ∧ live c ∧ (h.context c).names = vars.map (·.1) ∧
      List.Forall₂ (h.Shows live) ((h.context c).vars.map (·.2)) (vars.map (·.2)) := by
  cases hs with
  | leaf hv => exact absurd hv.symm (Leaf.value_ne_context _ _)
  | context hc hn hs => exact ⟨_, rfl, hc, hn, hs⟩

/-- A value holds one thing only. -/
theorem Shows.unique (hs : h.Shows live v s) (ht : h.Shows live' v t) : s = t := by
  induction s generalizing v t with
  | leaf a =>
    cases hs with
    | leaf hv =>
      cases ht with
      | leaf hv' => rw [Leaf.value_injective (hv.symm.trans hv')]
      | array _ => exact absurd hv.symm (Leaf.value_ne_array _ _ _)
      | list _ => exact absurd hv.symm (Leaf.value_ne_list _ _)
      | context _ _ _ => exact absurd hv.symm (Leaf.value_ne_context _ _)
  | array elem ss ih =>
    cases hs with
    | array hs =>
      obtain ⟨ts, rfl, hts⟩ := shows_array ht
      rw [forall₂_unique hs hts fun s hs' _ _ => ih s hs']
  | list ss ih =>
    cases hs with
    | list hs =>
      obtain ⟨ts, rfl, hts⟩ := shows_list ht
      rw [forall₂_unique hs hts fun s hs' _ _ => ih s hs']
  | context vars ih =>
    cases hs with
    | context _ hn hs =>
      obtain ⟨vars', rfl, -, hn', hts⟩ := shows_context ht
      refine congrArg _ (bindings_ext (hn.symm.trans hn') ?_)
      refine forall₂_unique hs hts fun s hs' _ _ => ?_
      obtain ⟨b, hb, rfl⟩ := List.mem_map.mp hs'
      exact ih b hb

/-- What a value holds does not depend on contexts outside of it. -/
theorem Shows.frame (hs : h.Shows live v s)
    (hframe : ∀ c, live c → live' c ∧ (h'.context c).vars = (h.context c).vars) :
    h'.Shows live' v s := by
  have hall : ∀ {vs : List Value} {ss : List Snapshot}, List.Forall₂ (h.Shows live) vs ss →
      (∀ s ∈ ss, ∀ v, h.Shows live v s → h'.Shows live' v s) →
      List.Forall₂ (h'.Shows live') vs ss := by
    intro vs ss hvs
    induction hvs with
    | nil => exact fun _ => .nil
    | cons hv _ ih =>
      exact fun hss => .cons (hss _ List.mem_cons_self _ hv)
        (ih fun s hs => hss s (List.mem_cons_of_mem _ hs))
  induction s generalizing v with
  | leaf a =>
    cases hs with
    | leaf hv => exact .leaf hv
  | array elem ss ih =>
    cases hs with
    | array hs => exact .array (hall hs fun s hs' v => ih s hs')
  | list ss ih =>
    cases hs with
    | list hs => exact .list (hall hs fun s hs' v => ih s hs')
  | context vars ih =>
    cases hs with
    | context hc hn hs =>
      obtain ⟨hc', hvars⟩ := hframe _ hc
      refine .context hc' ?_ ?_
      · rw [← hn, Context.names, Context.names, hvars]
      · rw [hvars]
        refine hall hs fun s hs' v => ?_
        obtain ⟨b, hb, rfl⟩ := List.mem_map.mp hs'
        exact ih b hb

/-! ### Reaching -/

/-- `v` holds `w` as an item or as the value of a variable. -/
inductive Holds (h : Heap) : Value → Value → Prop where
  | array {elem : Kind} {items : List Value} {w : Value} : w ∈ items →
    Holds h (.array elem items) w
  | list {items : List Value} {w : Value} : w ∈ items → Holds h (.list items) w
  /-- The value of a variable. -/
  | var {c : ContextId} {name : Text} {w : Value} : (name, w) ∈ (h.context c).vars →
    Holds h (.context c) w

/-- `w` is `v` or is held by it, at any depth. -/
def Reaches (h : Heap) : Value → Value → Prop := Relation.ReflTransGen h.Holds

/-- A context that contains itself. -/
def Cyclic (h : Heap) (c : ContextId) : Prop :=
  Relation.TransGen h.Holds (.context c) (.context c)

theorem forall₂_of_mem {α β : Type} {R : α → β → Prop} {xs : List α} {ys : List β} {x : α}
    (hr : List.Forall₂ R xs ys) (hx : x ∈ xs) : ∃ y ∈ ys, R x y := by
  induction hr with
  | nil => cases hx
  | cons hxy _ ih =>
    rcases List.mem_cons.mp hx with rfl | hx
    · exact ⟨_, List.mem_cons_self, hxy⟩
    · obtain ⟨y, hy, hr⟩ := ih hx
      exact ⟨y, List.mem_cons_of_mem _ hy, hr⟩

theorem forall₂_exists {α β : Type} {R : α → β → Prop} {xs : List α}
    (hr : ∀ x ∈ xs, ∃ y, R x y) : ∃ ys, List.Forall₂ R xs ys := by
  induction xs with
  | nil => exact ⟨[], .nil⟩
  | cons x xs ih =>
    obtain ⟨y, hy⟩ := hr x List.mem_cons_self
    obtain ⟨ys, hys⟩ := ih fun z hz => hr z (List.mem_cons_of_mem x hz)
    exact ⟨y :: ys, .cons hy hys⟩

theorem map_eq_of_forall₂ {α β γ : Type} {f : α → γ} {g : β → γ} {xs : List α} {ys : List β}
    (hr : List.Forall₂ (fun x y => f x = g y) xs ys) : xs.map f = ys.map g := by
  induction hr with
  | nil => rfl
  | cons hxy _ ih => rw [List.map_cons, List.map_cons, hxy, ih]

/-- What is held holds one of the parts. -/
theorem Shows.holds (hs : h.Shows live v s) (hw : h.Holds v w) :
    ∃ t ∈ s.parts, h.Shows live w t := by
  cases hw with
  | array hw =>
    obtain ⟨ss, rfl, hss⟩ := shows_array hs
    exact forall₂_of_mem hss hw
  | list hw =>
    obtain ⟨ss, rfl, hss⟩ := shows_list hs
    exact forall₂_of_mem hss hw
  | var hw =>
    obtain ⟨vars, rfl, -, -, hss⟩ := shows_context hs
    exact forall₂_of_mem hss (List.mem_map_of_mem hw)

/-- What is reached holds a part at some depth, with every property that passes to parts. -/
theorem Shows.reaches {P : Snapshot → Prop} (hP : ∀ s, P s → ∀ t ∈ s.parts, P t)
    (hs : h.Shows live v s) (hps : P s) (hw : h.Reaches v w) : ∃ t, h.Shows live w t ∧ P t := by
  induction hw with
  | refl => exact ⟨s, hs, hps⟩
  | tail _ hstep ih =>
    obtain ⟨t, ht, hpt⟩ := ih
    obtain ⟨u, hu, hshow⟩ := ht.holds hstep
    exact ⟨u, hshow, hP t hpt u hu⟩

/-- **What can be written out contains no cycle.** -/
theorem Shows.not_cyclic (hs : h.Shows live v s) {c : ContextId} (hc : h.Reaches v (.context c)) :
    ¬ h.Cyclic c := by
  intro hcycle
  obtain ⟨t, ht, -⟩ := hs.reaches (P := fun _ => True) (fun _ _ _ _ => trivial) trivial hc
  have hless : ∀ {w}, Relation.TransGen h.Holds (.context c) w →
      ∃ u, h.Shows live w u ∧ sizeOf u < sizeOf t := by
    intro w hw
    induction hw with
    | single hstep =>
      obtain ⟨u, hu, hshow⟩ := ht.holds hstep
      exact ⟨u, hshow, Snapshot.sizeOf_parts hu⟩
    | tail _ hstep ih =>
      obtain ⟨u, hu, hlt⟩ := ih
      obtain ⟨u', hu', hshow⟩ := hu.holds hstep
      exact ⟨u', hshow, (Snapshot.sizeOf_parts hu').trans hlt⟩
  obtain ⟨u, hu, hlt⟩ := hless hcycle
  rw [hu.unique ht] at hlt
  exact lt_irrefl _ hlt

end Heap

end Reckoner
