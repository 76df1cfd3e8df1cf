import Mathlib.Tactic
import Reckoner.Proofs.Contexts
import Reckoner.Proofs.Reading
import Reckoner.Proofs.Records

/-!
# Values read back

A value is read back from the records of its snapshot, whatever records follow: the reader takes
just these records, makes new contexts for those in the snapshot, and leaves older ones alone.
The proof is by induction over snapshots; each kind of value reads as many records as it wrote.
-/

namespace Reckoner

/-! ### What is stored and what is read -/

namespace Leaf

/-- The leaf can be stored. -/
def Storable (layout : Layout) : Leaf → Prop
  | text s => s.length ≤ 2 ^ 28
  | dateTime t => t.Storable layout
  | vector xs => xs.length < 2 ^ 63
  | pointVector ps => ps.length < 2 ^ 63
  | matrix m => 0 < m.rows ∧ 0 < m.cols ∧ m.rows * m.cols ≤ 2 ^ 24 ∧ m.data.length = m.rows * m.cols
  | _ => True

/-- The leaf is kept by the layout: it can be stored, but for a point in time it is enough that
it is read back. -/
def Kept (layout : Layout) : Leaf → Prop
  | dateTime t => t.Kept layout
  | a => a.Storable layout

theorem Storable.kept {layout : Layout} {a : Leaf} (ha : a.Storable layout) : a.Kept layout := by
  cases a with
  | dateTime t => exact DateTime.Storable.kept ha
  | _ => exact ha

/-- What is read back for a leaf. -/
def normal (layout : Layout) : Leaf → Leaf
  | real x => real (x.normal layout)
  | dateTime t => dateTime (t.normal layout)
  | point p => point ⟨p.x.normal layout, p.y.normal layout⟩
  | vector xs => vector (xs.map (Binary64.normal layout))
  | pointVector ps => pointVector (ps.map fun p => ⟨p.x.normal layout, p.y.normal layout⟩)
  | matrix m => matrix { m with data := m.data.map (Binary64.normal layout) }
  | a => a

theorem kind_normal (layout : Layout) (a : Leaf) : (a.normal layout).kind = a.kind := by
  cases a <;> rfl

/-- Packed records lose nothing. -/
theorem normal_packed (a : Leaf) : a.normal .packed = a := by
  have hreal : ∀ x : Binary64, x.normal .packed = x := fun x => by simp [Binary64.normal]
  cases a with
  | dateTime t => simp [normal, DateTime.normal]
  | vector xs => rw [normal, funext hreal, List.map_id']
  | pointVector ps => simp only [normal, hreal, List.map_id']
  | matrix m => simp only [normal, funext hreal, List.map_id']
  | real x => rw [normal, hreal]
  | point p => rw [normal, hreal, hreal]
  | _ => rfl

end Leaf

namespace Snapshot

/-- The snapshot can be stored if leaves with the property `fit` can be: all its leaves have the
property, the items of an array are of the kind that it has a name for, and the names of a context
differ and are not too long. -/
inductive Built (fit : Leaf → Prop) : Snapshot → Prop where
  /-- A leaf with the property. -/
  | leaf {a : Leaf} : fit a → Built fit (.leaf a)
  /-- Items of one named kind. -/
  | array {elem : Kind} {items : List Snapshot} : elem ∈ Kind.named → elem ≠ .none →
    items.length < 2 ^ 63 → (∀ s ∈ items, s.kind = elem) → (∀ s ∈ items, Built fit s) →
    Built fit (.array elem items)
  /-- Items of any kinds. -/
  | list {items : List Snapshot} : items.length < 2 ^ 63 → (∀ s ∈ items, Built fit s) →
    Built fit (.list items)
  /-- Variables with names that differ. -/
  | context {vars : List (Text × Snapshot)} : vars.length < 2 ^ 63 → (vars.map (·.1)).Nodup →
    (∀ b ∈ vars, b.1.length ≤ 2 ^ 28) → (∀ b ∈ vars, Built fit b.2) → Built fit (.context vars)

/-- The snapshot can be stored in the layout. -/
abbrev Storable (layout : Layout) : Snapshot → Prop := Built (Leaf.Storable layout)

/-- The snapshot is kept by the layout: it can be stored, but for its points in time it is enough
that they are read back. -/
abbrev Kept (layout : Layout) : Snapshot → Prop := Built (Leaf.Kept layout)

section

variable {fit fit' : Leaf → Prop} {s t : Snapshot}

theorem Built.mono (hs : s.Built fit) (hfit : ∀ a, fit a → fit' a) : s.Built fit' := by
  induction hs with
  | leaf ha => exact .leaf (hfit _ ha)
  | array hnamed hne hlen hkind _ ih => exact .array hnamed hne hlen hkind ih
  | list hlen _ ih => exact .list hlen ih
  | context hlen hnodup hbrief _ ih => exact .context hlen hnodup hbrief ih

theorem Built.part (hs : s.Built fit) (ht : t ∈ s.parts) : t.Built fit := by
  cases hs with
  | leaf _ => cases ht
  | array _ _ _ _ hitems => exact hitems t ht
  | list _ hitems => exact hitems t ht
  | context _ _ _ hvars =>
    obtain ⟨b, hb, rfl⟩ := List.mem_map.mp ht
    exact hvars b hb

theorem Storable.kept {layout : Layout} (hs : s.Storable layout) : s.Kept layout :=
  hs.mono fun _ ha => ha.kept

end

mutual

/-- What is read back for a snapshot. -/
def normal (layout : Layout) : Snapshot → Snapshot
  | leaf a => leaf (a.normal layout)
  | array elem items => array elem (normalAll layout items)
  | list items => list (normalAll layout items)
  | context vars => context (normalVars layout vars)

/-- What is read back for some items. -/
def normalAll (layout : Layout) : List Snapshot → List Snapshot
  | [] => []
  | s :: rest => s.normal layout :: normalAll layout rest

/-- What is read back for some variables, which keep their names. -/
def normalVars (layout : Layout) : List (Text × Snapshot) → List (Text × Snapshot)
  | [] => []
  | (name, s) :: rest => (name, s.normal layout) :: normalVars layout rest

end

theorem normalAll_eq (layout : Layout) (ss : List Snapshot) :
    normalAll layout ss = ss.map (normal layout) := by
  induction ss with
  | nil => rfl
  | cons s ss ih => rw [normalAll, ih, List.map_cons]

theorem normalVars_eq (layout : Layout) (vars : List (Text × Snapshot)) :
    normalVars layout vars = vars.map fun b => (b.1, b.2.normal layout) := by
  induction vars with
  | nil => rfl
  | cons b vars ih => rw [normalVars, ih, List.map_cons]

theorem kind_normal (layout : Layout) (s : Snapshot) : (s.normal layout).kind = s.kind := by
  cases s with
  | leaf a => rw [normal, kind, kind, Leaf.kind_normal]
  | array elem items => rw [normal, kind, kind]
  | list items => rw [normal, kind, kind]
  | context vars => rw [normal, kind, kind]

/-- What is read back is built of what is read back for the leaves. -/
theorem Built.normal {fit fit' : Leaf → Prop} {layout : Layout} {s : Snapshot} (hs : s.Built fit)
    (hfit : ∀ a, fit a → fit' (a.normal layout)) : (s.normal layout).Built fit' := by
  induction hs with
  | leaf ha => exact .leaf (hfit _ ha)
  | array hnamed hne hlen hkind _ ih =>
    rw [Snapshot.normal, normalAll_eq]
    refine .array hnamed hne (by rwa [List.length_map]) ?_ ?_
    · intro t ht
      obtain ⟨u, hu, rfl⟩ := List.mem_map.mp ht
      rw [kind_normal, hkind u hu]
    · intro t ht
      obtain ⟨u, hu, rfl⟩ := List.mem_map.mp ht
      exact ih u hu
  | list hlen _ ih =>
    rw [Snapshot.normal, normalAll_eq]
    refine .list (by rwa [List.length_map]) fun t ht => ?_
    obtain ⟨u, hu, rfl⟩ := List.mem_map.mp ht
    exact ih u hu
  | @context vars hlen hnodup hbrief _ ih =>
    rw [Snapshot.normal, normalVars_eq]
    have hnames : (vars.map fun b => (b.1, b.2.normal layout)).map (·.1) = vars.map (·.1) := by
      simp
    refine .context (by rwa [List.length_map]) (hnames ▸ hnodup) ?_ ?_
    · intro b hb
      obtain ⟨a, ha, rfl⟩ := List.mem_map.mp hb
      exact hbrief a ha
    · intro b hb
      obtain ⟨a, ha, rfl⟩ := List.mem_map.mp hb
      exact ih a ha

/-- **What is read back from packed records is what was written.** -/
theorem normal_packed (s : Snapshot) : s.normal .packed = s := by
  induction s with
  | leaf a => rw [normal, Leaf.normal_packed]
  | array elem items ih => rw [normal, normalAll_eq, List.map_congr_left ih, List.map_id']
  | list items ih => rw [normal, normalAll_eq, List.map_congr_left ih, List.map_id']
  | context vars ih =>
    rw [normal, normalVars_eq]
    refine congrArg context ((List.map_congr_left fun b hb => ?_).trans (List.map_id vars))
    rw [ih b hb]
    rfl

end Snapshot

/-! ### Readers that take records off -/

namespace Reading

variable {α β : Type} {layout : Layout} {p q : List Piece}

/-- In front of the records `es` and any others, the reader takes off just `es` and gives a result
with the property `P`, which may depend on the heap and on how many contexts there were before. -/
def Takes (layout : Layout) (es : List Piece) (r : Reading α) (P : Nat → Heap → α → Prop) : Prop :=
  ∀ (rest : List Piece) (d : Decoder) (h : Heap), d.At layout (es ++ rest) →
    ∃ a d' h', r.exec ⟨d, h⟩ = (.ok a, ⟨d', h'⟩) ∧ d'.At layout rest ∧ h.Grows h' ∧
      P h.contexts.size h' a

theorem takes_pure {P : Nat → Heap → α → Prop} {a : α} (hP : ∀ lo h, P lo h a) :
    Takes layout [] (pure a) P := fun _ d h hd => ⟨a, d, h, rfl, hd, .refl h, hP _ _⟩

theorem takes_heap {P : Nat → Heap → α → Prop} {f : Heap → Reading α}
    (hf : ∀ h, Takes layout p (f h) P) : Takes layout p (heap >>= f) P := by
  intro rest d h hd
  rw [exec_bind_ok (exec_heap _)]
  exact hf h rest d h hd

/-- One reader after another takes off one list of records after another. -/
theorem Takes.bind {x : Reading α} {f : α → Reading β} {P : Nat → Heap → α → Prop}
    {Q : α → Nat → Heap → β → Prop} {R : Nat → Heap → β → Prop} (hx : Takes layout p x P)
    (hP : Stable P) (hf : ∀ a lo h, P lo h a → Takes layout q (f a) (Q a)) (hQ : ∀ a, Stable (Q a))
    (hR : ∀ a b lo h, P lo h a → Q a lo h b → R lo h b) :
    Takes layout (p ++ q) (x >>= f) R := by
  intro rest d h hd
  rw [List.append_assoc] at hd
  obtain ⟨a, d₁, h₁, hexec, hd₁, hg₁, ha⟩ := hx _ d h hd
  obtain ⟨b, d₂, h₂, hexec', hd₂, hg₂, hb⟩ := hf a _ _ ha rest d₁ h₁ hd₁
  refine ⟨b, d₂, h₂, ?_, hd₂, hg₁.trans hg₂, hR a b _ _ (hP _ _ _ _ _ ha le_rfl hg₂) ?_⟩
  · rw [exec_bind_ok hexec, hexec']
  · exact hQ a _ _ _ _ _ hb hg₁.size_le (.refl _)

/-- A reader that takes off records with a fixed result. -/
theorem Takes.bind_const {x : Reading α} {f : α → Reading β} {a : α}
    {R : Nat → Heap → β → Prop} (hx : Takes layout p x fun _ _ b => b = a)
    (hf : Takes layout q (f a) R) (hR : Stable R) : Takes layout (p ++ q) (x >>= f) R :=
  hx.bind (Q := fun _ => R) (stable_const _) (fun _ _ _ hb => hb ▸ hf) (fun _ => hR)
    fun _ _ _ _ _ hb => hb

/-- A reader whose result does not depend on the heap. -/
theorem Takes.bind_result {x : Reading α} {f : α → Reading β} {P : α → Prop}
    {R : Nat → Heap → β → Prop} (hx : Takes layout p x fun _ _ a => P a)
    (hf : ∀ a, P a → Takes layout q (f a) R) (hR : Stable R) :
    Takes layout (p ++ q) (x >>= f) R :=
  hx.bind (Q := fun _ => R) (stable_const _) (fun a _ _ ha => hf a ha) (fun _ => hR)
    fun _ _ _ _ _ hb => hb

/-- A reader that goes on without taking off more. -/
theorem Takes.finish {x : Reading α} {f : α → Reading β} {P : Nat → Heap → α → Prop}
    {R : Nat → Heap → β → Prop} (hx : Takes layout p x P)
    (hf : ∀ lo h a, P lo h a → ∃ b, (∀ d, (f a).exec ⟨d, h⟩ = (.ok b, ⟨d, h⟩)) ∧ R lo h b) :
    Takes layout p (x >>= f) R := by
  intro rest d h hd
  obtain ⟨a, d', h', hexec, hd', hg, ha⟩ := hx rest d h hd
  obtain ⟨b, hb, hr⟩ := hf _ _ a ha
  exact ⟨b, d', h', by rw [exec_bind_ok hexec, hb], hd', hg, hr⟩

theorem Takes.map {x : Reading α} {a : α} (f : α → β)
    (hx : Takes layout p x fun _ _ b => b = a) :
    Takes layout p (x >>= fun a => pure (f a)) fun _ _ b => b = f a :=
  hx.finish fun _ _ _ hb => ⟨_, fun _ => rfl, congrArg f hb⟩

theorem Takes.imp {r : Reading α} {P Q : Nat → Heap → α → Prop} (hr : Takes layout p r P)
    (h : ∀ lo h a, P lo h a → Q lo h a) : Takes layout p r Q := by
  intro rest d hp hd
  obtain ⟨a, d', h', hexec, hd', hg, ha⟩ := hr rest d hp hd
  exact ⟨a, d', h', hexec, hd', hg, h _ _ _ ha⟩

end Reading

open Reading (Takes)

/-- What a record holds is a value that holds `s`. -/
def Holding (s : Snapshot) (lo : Nat) (h : Heap) (d : Option Datum) : Prop :=
  ∃ v, d = some (.value v) ∧ h.Shows (h.Since lo) v s

theorem stable_holding (s : Snapshot) : Stable (Holding s) := by
  rintro lo lo' h h' d ⟨v, rfl, hs⟩ hlo hg
  exact ⟨v, rfl, hs.grow hg hlo⟩

/-- The reader of records reads the snapshot back. -/
def ReadsBack (read : RecordReader) (layout : Layout) (s : Snapshot) : Prop :=
  Takes layout s.pieces read (Holding (s.normal layout))

/-! ### Scalars -/

/-- The leaf that is just a scalar. -/
def Scalar.leaf : Scalar → Leaf
  | int n => .int n
  | real x => .real x
  | text s => .text s
  | bool b => .bool b
  | dateTime t => .dateTime t
  | timeSpan d => .timeSpan d
  | color _ => .int 0

variable {layout : Layout} {catalog : Catalog} {version : Int} {fuel : Nat}

theorem readRecord_scalar {s s' : Scalar} (hs : s.ReadAs layout s') :
    Takes layout [.scalar s] (readRecord catalog version (fuel + 1))
      fun _ _ d => d = some s'.datum := by
  intro rest d h hd
  obtain ⟨d₁, d₂, htag, hpayload, hend, hd₂⟩ := Decoder.at_scalar hs hd
  refine ⟨_, d₂, h, ?_, hd₂, .refl h, rfl⟩
  rw [readRecord, Reading.exec_bind_ok (by rw [Reading.exec_step, htag])]
  simp only [Scalar.ofTag_tag]
  rw [Reading.exec_bind_ok (by rw [Reading.exec_step, hpayload]),
    Reading.exec_bind_ok (by rw [Reading.exec_step, hend])]
  rfl

/-- A tag without payload hands over to the reader of what it makes. -/
theorem readRecord_opening {tag : Text} {maker : Maker} {P : Nat → Heap → Value → Prop}
    (htag : tag ≠ [] ∧ tag.length ≤ 2 ^ 28) (hbuiltin : ScalarType.ofTag? tag = none)
    (hmaker : catalog tag version = .ok maker) {es : List Piece}
    (hparts : Takes layout es (readParts (readRecord catalog version fuel) tag maker) P) :
    Takes layout (.opening tag :: es) (readRecord catalog version (fuel + 1))
      fun lo h d => ∃ v, d = some (.value v) ∧ P lo h v := by
  intro rest d h hd
  obtain ⟨d₁, ht, hend, hd₁⟩ := Decoder.at_opening htag hd
  obtain ⟨v, d₂, h₂, hexec, hd₂, hg, hv⟩ := hparts rest d₁ h hd₁
  refine ⟨some (.value v), d₂, h₂, ?_, hd₂, hg, v, rfl, hv⟩
  rw [readRecord, Reading.exec_bind_ok (by rw [Reading.exec_step, ht])]
  simp only [hbuiltin]
  rw [Reading.exec_bind_ok (by rw [Reading.exec_result, hmaker]),
    Reading.exec_bind_ok (by rw [Reading.exec_step, hend]), Reading.exec_bind_ok hexec]
  rfl

/-! ### Blocks -/

variable {read : RecordReader}

/-- The reader of records reads back scalars. -/
def ReadsScalars (read : RecordReader) (layout : Layout) : Prop :=
  ∀ s : Scalar, s.Kept layout →
    Takes layout [.scalar s] read fun _ _ d => d = some (s.normal layout).datum

theorem takes_label (hread : ReadsScalars read layout) {t : Text} (ht : t.length ≤ 2 ^ 28)
    (what : Text) : Takes layout [.label t] (readLabel read what) fun _ _ s => s = t :=
  (hread (.text t) ht).finish fun _ _ _ hd => ⟨t, fun _ => by subst hd; rfl, rfl⟩

/-- The records `es` are read back as the content of a field with the property `P`. -/
structure ContentBack (read : RecordReader) (layout : Layout) (es : List Piece)
    (P : Nat → Heap → Option Datum → Prop) : Prop where
  /-- The reader takes the records off and gives something with the property. -/
  takes : Takes layout es read P
  /-- The property does not go away when contexts are added. -/
  stable : Stable P
  /-- What has it is there at all. -/
  present : ∀ lo h d, P lo h d → d ≠ none

theorem contentBack_scalar (hread : ReadsScalars read layout) {s : Scalar}
    (hs : s.Kept layout) :
    ContentBack read layout [.scalar s] fun _ _ d => d = some (s.normal layout).datum where
  takes := hread s hs
  stable := stable_const _
  present := by
    rintro _ _ _ rfl
    exact Option.some_ne_none _

theorem contentBack_snapshot {s : Snapshot} (hs : ReadsBack read layout s) :
    ContentBack read layout s.pieces (Holding (s.normal layout)) where
  takes := hs
  stable := stable_holding _
  present := by
    rintro _ _ _ ⟨v, rfl, -⟩
    exact Option.some_ne_none _

/-- The field has the labels, and a content with the property `P`. -/
def FieldOf (P : Nat → Heap → Option Datum → Prop) (labels : Text × Text) (lo : Nat) (h : Heap)
    (g : Field) : Prop :=
  P lo h g.value ∧ g.name = labels.1 ∧ g.comment = labels.2

theorem stable_fieldOf {P : Nat → Heap → Option Datum → Prop} (hP : Stable P)
    (labels : Text × Text) : Stable (FieldOf P labels) :=
  fun _ _ _ _ _ hf hlo hg => ⟨hP _ _ _ _ _ hf.1 hlo hg, hf.2⟩

/-- The labels of a field are not too long. -/
def Brief (labels : Text × Text) : Prop := labels.1.length ≤ 2 ^ 28 ∧ labels.2.length ≤ 2 ^ 28

theorem takes_field (hread : ReadsScalars read layout) {es : List Piece}
    {P : Nat → Heap → Option Datum → Prop} (hes : ContentBack read layout es P)
    {labels : Text × Text} (hlabels : Brief labels) (k : Nat) :
    Takes layout (Piece.field (es, labels)) (readField read k)
      fun lo h g => ∃ g', g = some g' ∧ FieldOf P labels lo h g' := by
  refine hes.takes.bind (Q := fun d _ _ g => g = some ⟨d, labels.1, labels.2⟩) hes.stable
    (fun d lo h hd => ?_) (fun d => stable_const _) ?_
  · obtain ⟨d, rfl⟩ := Option.ne_none_iff_exists'.mp (hes.present lo h d hd)
    exact (takes_label hread hlabels.1 _).bind_const (q := [.label labels.2])
      ((takes_label hread hlabels.2 _).map _) (stable_const _)
  · rintro d g lo h hd rfl
    exact ⟨_, rfl, hd, rfl, rfl⟩

variable {γ : Type} {pieces : γ → List Piece} {P : γ → Nat → Heap → Option Datum → Prop}

/-- The fields have the labels of `fields`, in order, and contents with their properties. -/
def FieldsOf (P : γ → Nat → Heap → Option Datum → Prop) (fields : List (γ × Text × Text)) (lo : Nat)
    (h : Heap) (gs : List Field) : Prop :=
  List.Forall₂ (fun f g => FieldOf (P f.1) f.2 lo h g) fields gs

theorem stable_fieldsOf {fields : List (γ × Text × Text)} (hP : ∀ f ∈ fields, Stable (P f.1)) :
    Stable (FieldsOf P fields) := by
  intro lo lo' h h' gs hgs hlo hg
  rw [FieldsOf, List.forall₂_iff_zip] at hgs ⊢
  refine ⟨hgs.1, fun {f g} hfg => ?_⟩
  exact stable_fieldOf (hP f (List.of_mem_zip hfg).1) _ _ _ _ _ _ (hgs.2 hfg) hlo hg

/-- The fields of a block are read back in order. -/
theorem readFields_back (hread : ReadsScalars read layout) {fields : List (γ × Text × Text)}
    (hfields : ∀ f ∈ fields, ContentBack read layout (pieces f.1) (P f.1) ∧ Brief f.2) (k : Nat)
    (rest : List Piece) (d : Decoder) (h : Heap)
    (hd : d.At layout (fields.flatMap (fun f => Piece.field (pieces f.1, f.2)) ++ rest)) :
    ∃ gs d' h', (readFields read fields.length k).run ⟨d, h⟩ = ((gs, none), ⟨d', h'⟩) ∧
      d'.At layout rest ∧ h.Grows h' ∧ FieldsOf P fields h.contexts.size h' gs := by
  induction fields generalizing k d h with
  | nil => exact ⟨[], d, h, rfl, hd, .refl h, .nil⟩
  | cons f fields ih =>
    rw [List.flatMap_cons, List.append_assoc] at hd
    obtain ⟨hback, hbrief⟩ := hfields f List.mem_cons_self
    obtain ⟨g, d₁, h₁, hexec, hd₁, hg₁, g', rfl, hfield⟩ :=
      takes_field hread hback hbrief k _ d h hd
    obtain ⟨gs, d₂, h₂, hrun, hd₂, hg₂, hgs⟩ :=
      ih (fun f hf => hfields f (List.mem_cons_of_mem _ hf)) (k + 1) d₁ h₁ hd₁
    have hstable : ∀ f ∈ fields, Stable (P f.1) := fun f hf =>
      (hfields f (List.mem_cons_of_mem _ hf)).1.stable
    refine ⟨g' :: gs, d₂, h₂, ?_, hd₂, hg₁.trans hg₂,
      .cons (stable_fieldOf hback.stable _ _ _ _ _ _ hfield le_rfl hg₂)
        (stable_fieldsOf hstable _ _ _ _ _ hgs hg₁.size_le (.refl _))⟩
    rw [List.length_cons, readFields_succ, hexec]
    simp only [hrun]

/-- The number of something that fits in memory. -/
theorem toInt_count {n : Nat} (hn : n < 2 ^ 63) : (Int64.ofNat n).toInt = n := by
  rw [Int64.toInt_ofNat_of_lt (by simpa using hn)]

theorem count_nonneg {n : Nat} (hn : n < 2 ^ 63) : ¬ Int64.ofNat n < 0 := by
  rw [Int64.lt_iff_toInt_lt, toInt_count hn]
  simp

theorem toNat_count {n : Nat} (hn : n < 2 ^ 63) : (Int64.ofNat n).toInt.toNat = n := by
  rw [toInt_count hn, Int.toNat_natCast]

variable (pieces P) in
/-- **Blocks are read back.** -/
theorem takes_block (hread : ReadsScalars read layout) {fields : List (γ × Text × Text)}
    (hlen : fields.length < 2 ^ 63)
    (hfields : ∀ f ∈ fields, ContentBack read layout (pieces f.1) (P f.1) ∧ Brief f.2) :
    Takes layout (Piece.block (fields.map fun f => (pieces f.1, f.2))) (readBlock read)
      (FieldsOf P fields) := by
  intro rest d h hd
  rw [Piece.block, List.length_map, List.flatMap_map] at hd
  obtain ⟨c, d₁, h₁, hexec, hd₁, hg₁, rfl⟩ :=
    hread (.int (Int64.ofNat fields.length)) trivial _ d h hd
  obtain ⟨gs, d₂, h₂, hrun, hd₂, hg₂, hgs⟩ := readFields_back hread hfields 0 rest d₁ h₁ hd₁
  have hstable : ∀ f ∈ fields, Stable (P f.1) := fun f hf => (hfields f hf).1.stable
  refine ⟨gs, d₂, h₂, ?_, hd₂, hg₁.trans hg₂,
    stable_fieldsOf hstable _ _ _ _ _ hgs hg₁.size_le (.refl _)⟩
  rw [readBlock_exec, readBlockPart_run, hexec]
  simp only [Scalar.normal, Scalar.datum, readCounted, if_neg (count_nonneg hlen),
    toNat_count hlen, hrun]

/-- A block of scalars is read back as fields that hold them. -/
theorem takes_scalarBlock (hread : ReadsScalars read layout)
    {fields : List (Scalar × Text × Text)} (hlen : fields.length < 2 ^ 63)
    (hfields : ∀ f ∈ fields, f.1.Kept layout ∧ Brief f.2) :
    Takes layout (Piece.scalarBlock fields) (readBlock read) fun _ _ gs =>
      List.Forall₂ (fun f g => g.value = some (f.1.normal layout).datum) fields gs :=
  (takes_block (fun s => [.scalar s]) (fun s _ _ d => d = some (s.normal layout).datum) hread hlen
    fun f hf => ⟨contentBack_scalar hread (hfields f hf).1, (hfields f hf).2⟩).imp
    fun _ _ _ hgs => hgs.imp fun _ _ hfg => hfg.1

end Reckoner
