import Mathlib.Tactic
import Reckoner.Proofs.Copies

/-!
# Ordered maps that are stored

What a stored context is for those who use it: a map from names to copies of values, which keeps
the order in which the names were set. A context that was read holds such a map, and the
operations on contexts do to it what the operations on maps do to the map.
-/

namespace Reckoner

/-- A map from names to copies of values, in an order. -/
abbrev StoredMap := List (Text × Snapshot)

namespace StoredMap

variable {bound : Layout} {m : StoredMap} {name k : Text} {s : Snapshot}

/-- Sets a name. One that is there keeps its position, and a new one goes last. -/
def put (m : StoredMap) (name : Text) (s : Snapshot) : StoredMap :=
  if (m.lookup name).isSome then m.map fun b => if b.1 = name then (name, s) else b
  else m ++ [(name, s)]

/-- Removes the given names, or all if none is given. -/
def without (m : StoredMap) (names : List Text) : StoredMap :=
  if names.isEmpty then [] else m.filter fun b => !names.contains b.1

/-- The map as a layout gives it back. -/
def normal (m : StoredMap) (layout : Layout) : StoredMap :=
  m.map fun b => (b.1, b.2.normal layout)

/-- The layout can hold the map. -/
def Storable (m : StoredMap) (bound : Layout) : Prop := (Snapshot.context m).Storable bound

/-- A context is given back as one that holds the map that is given back. -/
theorem context_normal (m : StoredMap) (layout : Layout) :
    (Snapshot.context m).normal layout = .context (m.normal layout) := by
  rw [Snapshot.normal, Snapshot.normalVars_eq, normal]

theorem storable_iff : m.Storable bound ↔ m.length < 2 ^ 63 ∧ (m.map (·.1)).Nodup ∧
    ∀ b ∈ m, b.1.length ≤ 2 ^ 28 ∧ b.2.Storable bound := by
  constructor
  · rintro (_ | _ | _ | ⟨hlen, hnodup, hbrief, hvars⟩)
    exact ⟨hlen, hnodup, fun b hb => ⟨hbrief b hb, hvars b hb⟩⟩
  · rintro ⟨hlen, hnodup, hall⟩
    exact .context hlen hnodup (fun b hb => (hall b hb).1) fun b hb => (hall b hb).2

theorem Storable.normal (hm : m.Storable bound) (layout : Layout) :
    StoredMap.Storable (m.normal layout) bound := by
  have hnormal := Snapshot.Storable.normal hm layout
  rwa [context_normal] at hnormal

theorem names_put_of_mem (hname : name ∈ m.map (·.1)) : (m.put name s).map (·.1) = m.map (·.1) := by
  rw [put, if_pos ((lookup_isSome_iff _ _).mpr hname), List.map_map]
  refine List.map_congr_left fun b _ => ?_
  by_cases hb : b.1 = name <;> simp [hb]

theorem put_of_notMem (hname : name ∉ m.map (·.1)) : m.put name s = m ++ [(name, s)] := by
  rw [put, if_neg fun h => hname ((lookup_isSome_iff _ _).mp h)]

theorem mem_put {b : Text × Snapshot} (hb : b ∈ m.put name s) : b = (name, s) ∨ b ∈ m := by
  unfold put at hb
  split at hb
  · obtain ⟨a, ha, rfl⟩ := List.mem_map.mp hb
    split
    · exact .inl rfl
    · exact .inr ha
  · rcases List.mem_append.mp hb with hb | hb
    · exact .inr hb
    · exact .inl (List.mem_singleton.mp hb)

theorem mem_put_self (m : StoredMap) (name : Text) (s : Snapshot) : (name, s) ∈ m.put name s := by
  by_cases hmem : name ∈ m.map (·.1)
  · obtain ⟨b, hb, rfl⟩ := List.mem_map.mp hmem
    rw [put, if_pos ((lookup_isSome_iff _ _).mpr hmem)]
    exact List.mem_map.mpr ⟨b, hb, if_pos rfl⟩
  · rw [put_of_notMem hmem]
    simp

theorem length_put_le (m : StoredMap) (name : Text) (s : Snapshot) :
    (m.put name s).length ≤ m.length + 1 := by
  unfold put
  split
  · simp
  · simp

theorem nodup_put (hnodup : (m.map (·.1)).Nodup) (name : Text) (s : Snapshot) :
    ((m.put name s).map (·.1)).Nodup := by
  by_cases hmem : name ∈ m.map (·.1)
  · rwa [names_put_of_mem hmem]
  · rw [put_of_notMem hmem, List.map_append]
    exact hnodup.append (List.nodup_singleton _) (List.disjoint_singleton.mpr hmem)

theorem names_normal (m : StoredMap) (layout : Layout) :
    (m.normal layout).map (·.1) = m.map (·.1) := by
  simp [normal]

theorem Storable.put (hm : m.Storable bound) (hname : name.length ≤ 2 ^ 28)
    (hs : s.Storable bound) (hlen : (m.put name s).length < 2 ^ 63) :
    StoredMap.Storable (m.put name s) bound := by
  obtain ⟨-, hnodup, hall⟩ := storable_iff.mp hm
  refine storable_iff.mpr ⟨hlen, nodup_put hnodup name s, fun b hb => ?_⟩
  rcases mem_put hb with rfl | hb
  · exact ⟨hname, hs⟩
  · exact hall b hb

theorem Storable.sublist {m' : StoredMap} (hm : m.Storable bound) (hsub : m'.Sublist m) :
    m'.Storable bound := by
  obtain ⟨hlen, hnodup, hall⟩ := storable_iff.mp hm
  exact storable_iff.mpr ⟨hsub.length_le.trans_lt hlen, hnodup.sublist (hsub.map _),
    fun b hb => hall b (hsub.subset hb)⟩

theorem sublist_without (m : StoredMap) (names : List Text) : (m.without names).Sublist m := by
  unfold without
  split
  · exact List.nil_sublist m
  · exact List.filter_sublist

theorem Storable.without (hm : m.Storable bound) (names : List Text) :
    StoredMap.Storable (m.without names) bound := hm.sublist (sublist_without m names)

end StoredMap

/-! ### Bindings and their copies -/

variable {h h' : Heap} {vars : List (Text × Value)} {m : StoredMap} {name k : Text} {v : Value}
  {s : Snapshot} {c : ContextId}

/-- A variable and its copy: the names are the same, and the value holds the copied one, related by
`R`. -/
def Copied (R : Value → Snapshot → Prop) (b : Text × Value) (t : Text × Snapshot) : Prop :=
  b.1 = t.1 ∧ R b.2 t.2

variable {R : Value → Snapshot → Prop}

theorem names_copied (hvars : List.Forall₂ (Copied R) vars m) : vars.map (·.1) = m.map (·.1) :=
  Heap.map_eq_of_forall₂ (hvars.imp fun _ _ h => h.1)

/-- Bindings with the same names are copies if their values are. -/
theorem copied_of_maps (hnames : vars.map (·.1) = m.map (·.1))
    (hvalues : List.Forall₂ R (vars.map (·.2)) (m.map (·.2))) :
    List.Forall₂ (Copied R) vars m := by
  induction vars generalizing m with
  | nil =>
    obtain rfl : m = [] := by simpa using hnames.symm
    exact .nil
  | cons b vars ih =>
    cases m with
    | nil => cases hnames
    | cons t m =>
      obtain ⟨hname, hrest⟩ := List.cons.inj hnames
      cases hvalues with
      | cons hvalue hvalues => exact .cons ⟨hname, hvalue⟩ (ih hrest hvalues)

theorem lookup_copied (hvars : List.Forall₂ (Copied R) vars m) (k : Text) :
    Option.Rel R (vars.lookup k) (m.lookup k) := by
  induction hvars with
  | nil => exact .none
  | @cons b t vars m hbt _ ih =>
    obtain ⟨hname, hvalue⟩ := hbt
    rw [List.lookup_cons, List.lookup_cons, hname]
    cases k == t.1 with
    | true => exact .some hvalue
    | false => exact ih

/-- Setting a variable sets it in the map. As the names of the map differ, nothing behind the first
binding is replaced. -/
theorem setIn_copied (hvars : List.Forall₂ (Copied R) vars m) (hnodup : (m.map (·.1)).Nodup)
    (hv : R v s) : List.Forall₂ (Copied R) (Context.setIn name v vars) (m.put name s) := by
  have hnew : Copied R (name, v) (name, s) := ⟨rfl, hv⟩
  by_cases hmem : name ∈ m.map (·.1)
  · rw [StoredMap.put, if_pos ((lookup_isSome_iff _ _).mpr hmem)]
    induction hvars with
    | nil => cases hmem
    | @cons b t vars m hbt hrest ih =>
      rw [List.map_cons, List.nodup_cons] at hnodup
      rw [Context.setIn, List.map_cons, hbt.1]
      by_cases hname : t.1 = name
      · have hsame : m.map (fun b => if b.1 = name then (name, s) else b) = m := by
          refine (List.map_congr_left fun b hb => if_neg ?_).trans (List.map_id m)
          rintro rfl
          exact hnodup.1 (hname ▸ List.mem_map_of_mem hb)
        rw [if_pos hname, if_pos hname, hsame]
        exact .cons ⟨hname, hv⟩ hrest
      · have hmem' : name ∈ m.map (·.1) := by
          simpa [Ne.symm hname] using hmem
        rw [if_neg hname, if_neg hname]
        exact .cons ⟨rfl, hbt.2⟩ (ih hnodup.2 hmem')
  · rw [StoredMap.put_of_notMem hmem, Heap.setIn_of_notMem (by rwa [names_copied hvars])]
    exact List.rel_append hvars (.cons hnew .nil)

theorem filter_copied (hvars : List.Forall₂ (Copied R) vars m) {p : Text × Value → Bool}
    {q : Text × Snapshot → Bool} (hpq : ∀ b t, b.1 = t.1 → (p b = true ↔ q t = true)) :
    List.Forall₂ (Copied R) (vars.filter p) (m.filter q) :=
  List.rel_filter (fun b t hbt => hpq b t hbt.1) hvars

namespace Heap

/-! ### Changing the context -/

/-- The context holds the map, and none of its values reaches it. -/
def HoldsMap (h : Heap) (c : ContextId) (m : StoredMap) : Prop :=
  List.Forall₂ (Copied (h.Shows fun d => d ≠ c)) (h.context c).vars m

/-- A context that has a snapshot holds it. None of its variables reaches it, which would close a
cycle. -/
theorem Shows.holdsMap {live : ContextId → Prop} (hs : h.Shows live (.context c) (.context m)) :
    h.HoldsMap c m := by
  obtain ⟨m', heq, -, hnames, hvalues⟩ := shows_context hs
  cases heq
  refine forall₂_imp_of_mem (copied_of_maps hnames hvalues) fun b hb t ht hbt => ⟨hbt.1, ?_⟩
  refine hbt.2.of_reaches.frame fun d hd => ⟨?_, rfl⟩
  rintro rfl
  exact hs.not_cyclic .refl (.head' (.var hb) hd.2)

theorem HoldsMap.shows (hc : h.HoldsMap c m) :
    h.Shows (fun _ => True) (.context c) (.context m) := by
  refine .context trivial (names_copied hc) ?_
  rw [List.forall₂_map_left_iff, List.forall₂_map_right_iff]
  exact List.Forall₂.imp (fun b t hbt => hbt.2.frame fun _ _ => ⟨trivial, rfl⟩) hc

/-- Changing a context to hold values that do not reach it. -/
theorem holdsMap_update (hc : c < h.contexts.size) {f : Context → Context}
    (hvars : List.Forall₂ (Copied (h.Shows fun d => d ≠ c)) (f (h.context c)).vars m) :
    (h.update c f).HoldsMap c m := by
  unfold HoldsMap
  rw [context_update hc]
  exact hvars.imp fun b t hbt =>
    ⟨hbt.1, hbt.2.frame fun d hd => ⟨hd, by rw [context_update_of_ne hd]⟩⟩

/-! ### New contexts that hold a map -/

/-- The new context `c` of `h'` has no parent and holds a copy of the map; what was there before is
as it was. -/
structure Loaded (h h' : Heap) (c : ContextId) (m : StoredMap) : Prop where
  grows : h.Grows h'
  orphan : (h'.context c).parent = none
  shows : h'.Shows (h'.Since h.contexts.size) (.context c) (.context m)

theorem loaded_newContext (h : Heap) : h.Loaded (h.newContext []).2 h.contexts.size [] := by
  have hempty : (h.newContext []).2.context h.contexts.size = {} := by
    rw [context_newContext, context_of_size_le le_rfl]
  refine ⟨grows_newContext h, by rw [hempty], .context ⟨le_rfl, ?_⟩ ?_ ?_⟩
  · rw [size_newContext]
    exact Nat.lt_succ_self _
  · rw [hempty]
    rfl
  · rw [hempty]
    exact .nil

theorem Loaded.since (hl : h.Loaded h' c m) : h'.Since h.contexts.size c := by
  obtain ⟨_, -, hc, -⟩ := shows_context hl.shows
  exact hc

/-- Changing the new context leaves what was there before as it was. -/
theorem Loaded.grows_update (hl : h.Loaded h' c m) (f : Context → Context) :
    h.Grows (h'.update c f) :=
  Keeps.trans hl.grows (keeps_update h' hl.since.1 f) le_rfl

/-- **A variable of the map is found in the context**, and no other. -/
theorem Loaded.lookup (hl : h.Loaded h' c m) (name : Text) :
    Option.Rel (h'.Shows (h'.Since h.contexts.size)) (h'.lookup c name) (m.lookup name) := by
  have hown : h'.lookup c name = (h'.context c).vars.lookup name := by
    rw [Heap.lookup, chain, chainFrom, hl.orphan]
    simp only [List.findSome?_cons, List.findSome?_nil, Context.get?]
    cases (h'.context c).vars.lookup name <;> rfl
  obtain ⟨_, heq, -, hnames, hvalues⟩ := shows_context hl.shows
  cases heq
  rw [hown]
  exact lookup_copied (copied_of_maps hnames hvalues) name

/-- **Setting a variable of the context sets it in the map.** The value may be any that was there
before. It is older than the context, so it cannot reach it. -/
theorem Loaded.set {live : ContextId → Prop} (hl : h.Loaded h' c m)
    (hnodup : (m.map (·.1)).Nodup)
    (hv : h.Shows live v s) (hold : ∀ d, h.Reaches v (.context d) → d < h.contexts.size) :
    (h'.setVariable c name v).HoldsMap c (m.put name s) := by
  have hv' : h'.Shows (fun d => d ≠ c) v s := hv.of_reaches.frame fun d hd => by
    have hlt : d < h.contexts.size := hold d hd.2
    exact ⟨Nat.ne_of_lt (hlt.trans_le hl.since.1), by rw [hl.grows.same d hlt]⟩
  exact holdsMap_update hl.since.2 (setIn_copied hl.shows.holdsMap hnodup hv')

theorem HoldsMap.clearVariable (hc : c < h.contexts.size) (hm : h.HoldsMap c m) (name : Text) :
    (h.clearVariable c name).2.HoldsMap c (m.filter fun b => b.1 ≠ name) :=
  holdsMap_update hc (filter_copied hm fun b t hbt => by simp [hbt])

/-- Removes the given names from a context, or all if none is given. -/
def clearNames (h : Heap) (c : ContextId) (names : List Text) : Heap :=
  if names.isEmpty then h.clear c else names.foldl (fun h n => (h.clearVariable c n).2) h

/-- Removing names one after another removes all of them. -/
theorem HoldsMap.clearVariables (hc : c < h.contexts.size) (hm : h.HoldsMap c m)
    (names : List Text) : (names.foldl (fun h n => (h.clearVariable c n).2) h).HoldsMap c
      (m.filter fun b => !names.contains b.1) := by
  induction names generalizing h m with
  | nil => simpa using hm
  | cons name names ih =>
    have hstep := ih (by rwa [Heap.clearVariable, size_update]) (hm.clearVariable hc name)
    rw [List.filter_filter] at hstep
    rw [List.foldl_cons]
    refine (congrArg (HoldsMap _ c) (List.filter_congr fun b _ => ?_)).mp hstep
    by_cases hb : b.1 = name <;> simp [hb]

/-- **Clearing the context removes from the map.** -/
theorem Loaded.clear (hl : h.Loaded h' c m) (names : List Text) :
    (h'.clearNames c names).HoldsMap c (m.without names) := by
  unfold clearNames StoredMap.without
  split
  · exact holdsMap_update hl.since.2 .nil
  · exact hl.shows.holdsMap.clearVariables hl.since.2 names

theorem Keeps.clearVariables {lo : Nat} (hk : Keeps lo h h') (hc : lo ≤ c) (names : List Text) :
    Keeps lo h (names.foldl (fun h n => (h.clearVariable c n).2) h') := by
  induction names generalizing h' with
  | nil => exact hk
  | cons name names ih => exact ih (hk.trans (keeps_update h' hc _) le_rfl)

theorem Loaded.grows_clear (hl : h.Loaded h' c m) (names : List Text) :
    h.Grows (h'.clearNames c names) := by
  unfold clearNames
  split
  · exact hl.grows_update _
  · exact hl.grows.clearVariables hl.since.1 names

/-! ### Values without a stored form -/

theorem Holds.grow {w : Value} (hw : h.Holds v w) (hg : h.Grows h') : h'.Holds v w := by
  cases hw with
  | array hmem => exact .array hmem
  | list hmem => exact .list hmem
  | var hb => exact .var (by rw [hg.same _ (lt_of_var hb)]; exact hb)

theorem Unstorable.grow (hv : h.Unstorable v) (hg : h.Grows h') : h'.Unstorable v := by
  have hsub : h.Holds ≤ h'.Holds := fun _ _ hstep => hstep.grow hg
  rcases hv with ⟨t, ht⟩ | ⟨d, hd, hcycle⟩
  · exact .inl ⟨t, Relation.ReflTransGen.mono hsub _ _ ht⟩
  · exact .inr ⟨d, Relation.ReflTransGen.mono hsub _ _ hd, Relation.TransGen.mono hsub _ _ hcycle⟩

theorem Unstorable.of_held {w : Value} (hw : h.Unstorable w) (hstep : h.Holds v w) :
    h.Unstorable v := by
  rcases hw with ⟨t, ht⟩ | ⟨d, hd, hcycle⟩
  · exact .inl ⟨t, .head hstep ht⟩
  · exact .inr ⟨d, .head hstep hd, hcycle⟩

/-- A context that is given a value without a stored form has none. -/
theorem Loaded.set_unstorable (hl : h.Loaded h' c m) (hv : h.Unstorable v) :
    (h'.setVariable c name v).Unstorable (.context c) := by
  have hvars : ((h'.setVariable c name v).context c).vars
      = Context.setIn name v (h'.context c).vars := by
    rw [setVariable, context_update hl.since.2]
    rfl
  have hmem : (name, v) ∈ ((h'.setVariable c name v).context c).vars :=
    hvars ▸ mem_setIn_self name v _
  exact (hv.grow (hl.grows_update _)).of_held (.var hmem)

end Heap

end Reckoner
