import Mathlib.Tactic
import Reckoner.Proofs.ReadBack

/-!
# Composite values read back

What each maker of a composite value takes off the stream: a block that describes the value, and
then its parts. Of the block only the first fields count, those that the maker knows; there may be
more behind them. Put together by induction over snapshots, every value that its layout keeps is
read back from its records.
-/

namespace Reckoner

open Reading (Takes)

variable {read : RecordReader} {layout : Layout}

/-! ### Parts of composite values -/

theorem takes_real (hread : ReadsScalars read layout) (x : Binary64) (what : Text) :
    Takes layout [.scalar (.real x)] (readReal read what) fun _ _ y => y = x.normal layout :=
  (hread (.real x) trivial).finish fun _ _ _ hd => ⟨_, fun _ => by subst hd; rfl, rfl⟩

theorem takes_reals (hread : ReadsScalars read layout) (xs : List Binary64) (what : Text) :
    Takes layout (Piece.reals xs) (readReals read what xs.length)
      fun _ _ ys => ys = xs.map (Binary64.normal layout) := by
  induction xs with
  | nil => exact Reading.takes_pure fun _ _ => rfl
  | cons x xs ih =>
    exact (takes_real hread x what).bind_const (ih.map _) (stable_const _)

theorem takes_points (hread : ReadsScalars read layout) (ps : List Point) :
    Takes layout (Piece.reals (ps.flatMap fun p => [p.x, p.y])) (readPoints read ps.length)
      fun _ _ qs => qs = ps.map fun p => ⟨p.x.normal layout, p.y.normal layout⟩ := by
  induction ps with
  | nil => exact Reading.takes_pure fun _ _ => rfl
  | cons p ps ih =>
    exact (takes_real hread p.x _).bind_const ((takes_real hread p.y _).bind_const
      (ih.map _) (stable_const _)) (stable_const _)

/-! ### Fields of a block -/

theorem readInt_value {gs : List Field} {g : Field} {i : Nat} {n : Int64} (hg : gs[i]? = some g)
    (hv : g.value = some (.value (.int n))) (h : Heap) : Field.readInt h gs i = .ok n := by
  simp only [Field.readInt, Field.read, hg, hv]

theorem readReal_value {gs : List Field} {g : Field} {i : Nat} {x : Binary64}
    (hg : gs[i]? = some g) (hv : g.value = some (.value (.real x))) (h : Heap) :
    Field.readReal h gs i = .ok x := by
  simp only [Field.readReal, Field.read, hg, hv]

theorem readText_value {gs : List Field} {g : Field} {i : Nat} {t : Text} (hg : gs[i]? = some g)
    (hv : g.value = some (.value (.text t))) (h : Heap) : Field.readText h gs i = .ok t := by
  simp only [Field.readText, Field.read, hg, hv]

@[simp] theorem Reading.result_ok_bind {α β : Type} (a : α) (f : α → Reading β) :
    (Reading.result (.ok a) >>= f) = f a := rfl

/-- The labels of descriptions are short. -/
theorem brief_of_le (l : Text × Text) (h : l.1.length ≤ 16 ∧ l.2.length ≤ 16) : Brief l :=
  ⟨h.1.trans (by norm_num), h.2.trans (by norm_num)⟩

/-- The first fields hold the scalars. -/
def Begin (layout : Layout) (ss : List Scalar) (gs : List Field) : Prop :=
  ∃ front rest, gs = front ++ rest ∧
    List.Forall₂ (fun s g => g.value = some (s.normal layout).datum) ss front

/-- The records are a block whose first fields hold the scalars. -/
abbrev Describes (read : RecordReader) (layout : Layout) (es : List Piece) (ss : List Scalar) :
    Prop :=
  Takes layout es (readBlock read) fun _ _ gs => Begin layout ss gs

theorem begin_cons {s : Scalar} {ss : List Scalar} {gs : List Field}
    (h : Begin layout (s :: ss) gs) :
    ∃ g rest, gs = g :: rest ∧ g.value = some (s.normal layout).datum ∧ Begin layout ss rest := by
  obtain ⟨front, rest, rfl, hfront⟩ := h
  obtain ⟨g, front, hg, hrest, rfl⟩ := List.forall₂_cons_left_iff.mp hfront
  exact ⟨g, front ++ rest, rfl, hg, front, rest, rfl, hrest⟩

/-- A block of just the scalars describes them. -/
theorem describes_scalarBlock (hread : ReadsScalars read layout)
    {fields : List (Scalar × Text × Text)} (hlen : fields.length < 2 ^ 63)
    (hfields : ∀ f ∈ fields, f.1.Kept layout ∧ Brief f.2) :
    Describes read layout (Piece.scalarBlock fields) (fields.map (·.1)) :=
  (takes_scalarBlock hread hlen hfields).imp fun _ _ gs hgs =>
    ⟨gs, [], (List.append_nil gs).symm, List.forall₂_map_left_iff.mpr hgs⟩

variable {es : List Piece}

/-- The length of a sequence is read back. -/
theorem takes_length {n : Nat} (hblock : Describes read layout es [.int (Int64.ofNat n)])
    (hn : n < 2 ^ 63) (what : Text) :
    Takes layout es (readLength read what) fun _ _ m => m = n := by
  refine hblock.finish fun lo h gs hgs => ⟨n, fun d => ?_, rfl⟩
  obtain ⟨g, rest, rfl, hg, -⟩ := begin_cons hgs
  have hread : Field.readInt h (g :: rest) 0 = .ok (Int64.ofNat n) := readInt_value rfl hg h
  simp only [Reading.exec_bind, Reading.exec_heap, Reading.exec_result, hread,
    if_neg (count_nonneg hn), Reading.exec_pure, toNat_count hn]

/-! ### Makers -/

variable {tag : Text}

theorem takes_point {p : Point} (hblock : Describes read layout es [.real p.x, .real p.y]) :
    Takes layout es (readParts read tag .point)
      fun _ _ v => v = .point ⟨p.x.normal layout, p.y.normal layout⟩ := by
  rw [readParts]
  refine hblock.finish fun lo h gs hgs => ⟨_, fun d => ?_, rfl⟩
  obtain ⟨f, gs, rfl, hf, hgs⟩ := begin_cons hgs
  obtain ⟨g, rest, rfl, hg, -⟩ := begin_cons hgs
  have hx : Field.readReal h (f :: g :: rest) 0 = .ok (p.x.normal layout) := readReal_value rfl hf h
  have hy : Field.readReal h (f :: g :: rest) 1 = .ok (p.y.normal layout) := readReal_value rfl hg h
  simp only [Reading.exec_bind, Reading.exec_heap, Reading.exec_result, hx, hy, Reading.exec_pure]

theorem takes_vector (hread : ReadsScalars read layout) {xs : List Binary64}
    (hblock : Describes read layout es [.int (Int64.ofNat xs.length)])
    (hlen : xs.length < 2 ^ 63) :
    Takes layout (es ++ Piece.reals xs) (readParts read tag .vector)
      fun _ _ v => v = .vector (xs.map (Binary64.normal layout)) := by
  rw [readParts]
  exact (takes_length hblock hlen _).bind_const ((takes_reals hread xs _).map _)
    (stable_const _)

theorem takes_pointVector (hread : ReadsScalars read layout) {ps : List Point}
    (hblock : Describes read layout es [.int (Int64.ofNat ps.length)])
    (hlen : ps.length < 2 ^ 63) :
    Takes layout (es ++ Piece.reals (ps.flatMap fun p => [p.x, p.y]))
      (readParts read tag .pointVector)
      fun _ _ v => v = .pointVector (ps.map fun p => ⟨p.x.normal layout, p.y.normal layout⟩) := by
  rw [readParts]
  exact (takes_length hblock hlen _).bind_const ((takes_points hread ps).map _)
    (stable_const _)

theorem count_pos {n : Nat} (hpos : 0 < n) (hn : n < 2 ^ 63) : ¬ Int64.ofNat n ≤ 0 := by
  rw [Int64.le_iff_toInt_le, toInt_count hn, not_le]
  exact Int.natCast_pos.mpr hpos

theorem takes_matrix (hread : ReadsScalars read layout) {m : Matrix}
    (hblock : Describes read layout es [.int (Int64.ofNat m.rows), .int (Int64.ofNat m.cols)])
    (hm : (Leaf.matrix m).Kept layout) :
    Takes layout (es ++ Piece.reals m.data) (readParts read tag .matrix)
      fun _ _ v => v = .matrix { m with data := m.data.map (Binary64.normal layout) } := by
  obtain ⟨hrows, hcols, hmax, hdata⟩ := hm
  have hr : m.rows < 2 ^ 63 := by nlinarith
  have hc : m.cols < 2 ^ 63 := by nlinarith
  have hfits : ¬ maxElements / m.cols < m.rows := by
    rw [not_lt, maxElements, Nat.le_div_iff_mul_le hcols]
    exact hmax
  rw [readParts]
  refine hblock.bind_result (fun gs hgs => ?_) (stable_const _)
  obtain ⟨f, gs, rfl, hf, hgs⟩ := begin_cons hgs
  obtain ⟨g, rest, rfl, hg, -⟩ := begin_cons hgs
  refine Reading.takes_heap fun h => ?_
  have hr' : Field.readInt h (f :: g :: rest) 0 = .ok (Int64.ofNat m.rows) := readInt_value rfl hf h
  have hc' : Field.readInt h (f :: g :: rest) 1 = .ok (Int64.ofNat m.cols) := readInt_value rfl hg h
  rw [hr', hc']
  simp only [Reading.result_ok_bind, decide_eq_false (count_pos hrows hr),
    decide_eq_false (count_pos hcols hc), toNat_count hr, toNat_count hc, decide_eq_false hfits,
    Bool.or_self, Bool.false_eq_true, if_false, ← hdata]
  exact (takes_reals hread m.data _).map _

/-! ### Sequences -/

theorem stable_shows (ss : List Snapshot) :
    Stable fun lo h vs => List.Forall₂ (h.Shows (h.Since lo)) vs ss :=
  fun _ _ _ _ _ hvs hlo hg => hvs.imp fun _ _ hv => hv.grow hg hlo

/-- Items are read back in order. -/
theorem takes_items {ss : List Snapshot} (hss : ∀ s ∈ ss, ReadsBack read layout s) (total : Nat) :
    Takes layout (Snapshot.piecesAll ss) (readItems read total ss.length)
      fun lo h vs => List.Forall₂ (h.Shows (h.Since lo)) vs (Snapshot.normalAll layout ss) := by
  induction ss with
  | nil => exact Reading.takes_pure fun _ _ => .nil
  | cons s ss ih =>
    have hrest := ih fun t ht => hss t (List.mem_cons_of_mem s ht)
    refine (hss s List.mem_cons_self).bind
      (Q := fun d lo h vs => ∃ v rest, d = some (.value v) ∧ vs = v :: rest ∧
        List.Forall₂ (h.Shows (h.Since lo)) rest (Snapshot.normalAll layout ss))
      (stable_holding _) (fun d lo h hd => ?_) (fun d => ?_) ?_
    · obtain ⟨v, rfl, -⟩ := hd
      exact hrest.finish fun _ _ vs hvs => ⟨v :: vs, fun _ => rfl, v, vs, rfl, rfl, hvs⟩
    · rintro _ _ _ _ _ ⟨v, rest, rfl, rfl, hvs⟩ hlo hg
      exact ⟨v, rest, rfl, rfl, stable_shows _ _ _ _ _ _ hvs hlo hg⟩
    · rintro _ _ lo h ⟨v, rfl, hv⟩ ⟨w, rest, hw, rfl, hvs⟩
      cases hw
      exact .cons hv hvs

/-- Items of the right kind make an array. -/
theorem newArray_ok {elem : Kind} {vs : List Value} (hvs : ∀ v ∈ vs, v.kind = elem) :
    Value.newArray elem (vs.map some) = .ok (.array elem vs) := by
  have hcheck : ∀ k, Value.checkItems elem k (vs.map some) = .ok vs := by
    induction vs with
    | nil => exact fun _ => rfl
    | cons v vs ih =>
      intro k
      rw [List.map_cons, Value.checkItems, if_pos (hvs v List.mem_cons_self),
        ih fun w hw => hvs w (List.mem_cons_of_mem v hw)]
      rfl
  rw [Value.newArray, hcheck]
  rfl

/-- Items that hold snapshots have their kinds. -/
theorem kind_of_shows {h : Heap} {live : ContextId → Prop} {elem : Kind} {vs : List Value}
    {ss : List Snapshot} (hvs : List.Forall₂ (h.Shows live) vs ss)
    (hkind : ∀ s ∈ ss, s.kind = elem) : ∀ v ∈ vs, v.kind = elem := by
  intro v hv
  obtain ⟨s, hs, hshows⟩ := Heap.forall₂_of_mem hvs hv
  rw [hshows.kind, hkind s hs]

theorem ofName_name {k : Kind} (hk : k ∈ Kind.named) (hne : k ≠ .none) :
    Kind.ofName? k.name = some k ∧ k.name.length ≤ 2 ^ 28 := by
  have hall : ∀ k ∈ Kind.named, k ≠ .none → Kind.ofName? k.name = some k ∧ k.name.length ≤ 16 := by
    decide
  exact ⟨(hall k hk hne).1, (hall k hk hne).2.trans (by norm_num)⟩

theorem takes_array {elem : Kind} {ss : List Snapshot}
    (hblock : Describes read layout es [.text elem.name, .int (Int64.ofNat ss.length)])
    (hs : (Snapshot.array elem ss).Kept layout) (hss : ∀ s ∈ ss, ReadsBack read layout s) :
    Takes layout (es ++ Snapshot.piecesAll ss) (readParts read tag .array)
      fun lo h v => h.Shows (h.Since lo) v (.array elem (Snapshot.normalAll layout ss)) := by
  obtain ⟨hnamed, hne, hlen, hkind⟩ : elem ∈ Kind.named ∧ elem ≠ .none ∧ ss.length < 2 ^ 63 ∧
      ∀ s ∈ ss, s.kind = elem := by
    cases hs with
    | array hnamed hne hlen hkind _ => exact ⟨hnamed, hne, hlen, hkind⟩
  obtain ⟨hname, -⟩ := ofName_name hnamed hne
  rw [readParts]
  refine hblock.bind_result (fun gs hgs => ?_) ?_
  · obtain ⟨f, gs, rfl, hf, hgs⟩ := begin_cons hgs
    obtain ⟨g, rest, rfl, hg, -⟩ := begin_cons hgs
    refine Reading.takes_heap fun h => ?_
    have hf' : Field.readText h (f :: g :: rest) 0 = .ok elem.name := readText_value rfl hf h
    have hg' : Field.readInt h (f :: g :: rest) 1 = .ok (Int64.ofNat ss.length) :=
      readInt_value rfl hg h
    rw [hf', hg']
    simp only [Reading.result_ok_bind, hname, if_neg (count_nonneg hlen), toNat_count hlen]
    refine (takes_items hss ss.length).finish fun lo h vs hvs => ?_
    have hkinds : ∀ t ∈ Snapshot.normalAll layout ss, t.kind = elem := by
      intro t ht
      rw [Snapshot.normalAll_eq] at ht
      obtain ⟨s, hs, rfl⟩ := List.mem_map.mp ht
      rw [Snapshot.kind_normal, hkind s hs]
    refine ⟨.array elem vs, fun d => ?_, .array hvs⟩
    rw [newArray_ok (kind_of_shows hvs hkinds)]
    rfl
  · exact fun _ _ _ _ _ hv hlo hg => hv.grow hg hlo

theorem takes_list {ss : List Snapshot}
    (hblock : Describes read layout es [.int (Int64.ofNat ss.length)]) (hlen : ss.length < 2 ^ 63)
    (hss : ∀ s ∈ ss, ReadsBack read layout s) :
    Takes layout (es ++ Snapshot.piecesAll ss) (readParts read tag .list)
      fun lo h v => h.Shows (h.Since lo) v (.list (Snapshot.normalAll layout ss)) := by
  rw [readParts]
  refine (takes_length hblock hlen _).bind_const ?_ fun _ _ _ _ _ hv hlo hg => hv.grow hg hlo
  exact (takes_items hss ss.length).finish fun lo h vs hvs => ⟨.list vs, fun _ => rfl, .list hvs⟩

/-! ### Descriptions -/

/-- How a composite value is written: a tag with its maker, a block of scalars that describes the
value, and the records of its parts. -/
structure Description where
  tag : Text
  /-- What the reader makes of the tag. -/
  maker : Maker
  /-- The scalars of the block, each with its name and its comment. -/
  fields : List (Scalar × Text × Text)
  body : List Piece

/-- The description of a sequence. -/
def Description.ofLength (tag : Text) (maker : Maker) (n : Nat) (body : List Piece) :
    Description :=
  ⟨tag, maker, [(.int (Int64.ofNat n), "length", [])], body⟩

/-- The description of a composite value. Scalars have none, and a context none but its parts. -/
def Snapshot.description? : Snapshot → Option Description
  | leaf (.point p) => some ⟨"point", .point, [(.real p.x, "x", []), (.real p.y, "y", [])], []⟩
  | leaf (.vector xs) => some (.ofLength "vector" .vector xs.length (Piece.reals xs))
  | leaf (.pointVector ps) =>
    some (.ofLength "pointvector" .pointVector ps.length
      (Piece.reals (ps.flatMap fun p => [p.x, p.y])))
  | leaf (.matrix m) =>
    some ⟨"matrix", .matrix,
      [(.int (Int64.ofNat m.rows), "rows", []), (.int (Int64.ofNat m.cols), "cols", [])],
      Piece.reals m.data⟩
  | array elem items =>
    some ⟨"array", .array,
      [(.text elem.name, "elem", "element kind"), (.int (Int64.ofNat items.length), "length", [])],
      piecesAll items⟩
  | list items => some (.ofLength "list" .list items.length (piecesAll items))
  | _ => none

namespace Description

variable {s : Snapshot} {d : Description}

theorem pieces_eq (hd : s.description? = some d) :
    s.pieces = .opening d.tag :: (Piece.scalarBlock d.fields ++ d.body) := by
  unfold Snapshot.description? at hd
  split at hd
  all_goals cases hd
  all_goals simp [Snapshot.pieces, Leaf.pieces, Piece.length, Snapshot.arrayHead, ofLength]

/-- What is known of the tag of a description. -/
structure WellTagged (d : Description) : Prop where
  /-- The tag can be written. -/
  brief : d.tag ≠ [] ∧ d.tag.length ≤ 2 ^ 28
  /-- It is not the tag of a scalar. -/
  builtin : ScalarType.ofTag? d.tag = none
  /-- The reader knows it. -/
  maker : Catalog.values d.tag 1 = .ok d.maker

theorem wellTagged (hd : s.description? = some d) : d.WellTagged := by
  unfold Snapshot.description? at hd
  split at hd
  all_goals cases hd
  all_goals refine ⟨?_, rfl, rfl⟩
  all_goals dsimp only [ofLength]
  all_goals decide

theorem kept_length (tag : Text) (maker : Maker) (n : Nat) (body : List Piece) :
    ∀ f ∈ (ofLength tag maker n body).fields, f.1.Kept layout ∧ Brief f.2 := by
  intro f hf
  rw [List.mem_singleton.mp hf]
  exact ⟨trivial, brief_of_le ("length", []) (by decide)⟩

theorem kept_pair {a b : Scalar} {la lb : Text × Text} (ha : a.Kept layout) (hb : b.Kept layout)
    (hla : la.1.length ≤ 16 ∧ la.2.length ≤ 16) (hlb : lb.1.length ≤ 16 ∧ lb.2.length ≤ 16) :
    ∀ f ∈ [(a, la), (b, lb)], f.1.Kept layout ∧ Brief f.2 := by
  intro f hf
  rcases List.mem_cons.mp hf with rfl | hf
  · exact ⟨ha, brief_of_le _ hla⟩
  · rw [List.mem_singleton.mp hf]
    exact ⟨hb, brief_of_le _ hlb⟩

/-- The fields of a description are few, and are kept. -/
theorem fields_kept (hd : s.description? = some d) (hs : s.Kept layout) :
    d.fields.length ≤ 2 ∧ ∀ f ∈ d.fields, f.1.Kept layout ∧ Brief f.2 := by
  cases s with
  | leaf a =>
    cases a with
    | point p =>
      cases hd
      exact ⟨le_rfl, kept_pair (a := .real p.x) (b := .real p.y) trivial trivial (by decide)
        (by decide)⟩
    | vector xs =>
      cases hd
      exact ⟨Nat.le_succ 1, kept_length _ _ _ _⟩
    | pointVector ps =>
      cases hd
      exact ⟨Nat.le_succ 1, kept_length _ _ _ _⟩
    | matrix m =>
      cases hd
      exact ⟨le_rfl, kept_pair (a := .int (Int64.ofNat m.rows)) (b := .int (Int64.ofNat m.cols))
        trivial trivial (by decide) (by decide)⟩
    | _ => cases hd
  | array elem items =>
    cases hd
    cases hs with
    | array hnamed hne _ _ _ =>
      exact ⟨le_rfl, kept_pair (a := .text elem.name) (b := .int (Int64.ofNat items.length))
        (ofName_name hnamed hne).2 trivial (by decide) (by decide)⟩
  | list items =>
    cases hd
    exact ⟨Nat.le_succ 1, kept_length _ _ _ _⟩
  | context vars => cases hd

/-- A description by itself. -/
theorem describes (hd : s.description? = some d) (hs : s.Kept layout)
    (hread : ReadsScalars read layout) :
    Describes read layout (Piece.scalarBlock d.fields) (d.fields.map (·.1)) := by
  obtain ⟨hfew, hkept⟩ := fields_kept hd hs
  exact describes_scalarBlock hread (by omega) hkept

/-- **A maker takes the description and the parts**, whatever the description has behind the fields
that the maker knows. -/
theorem takes_parts (hd : s.description? = some d) (hs : s.Kept layout)
    (hread : ReadsScalars read layout) (hparts : ∀ t ∈ s.parts, ReadsBack read layout t)
    (hblock : Describes read layout es (d.fields.map (·.1))) :
    Takes layout (es ++ d.body) (readParts read d.tag d.maker)
      fun lo h v => h.Shows (h.Since lo) v (s.normal layout) := by
  have hleaf : ∀ {a : Leaf} {p : List Piece} {r : Reading Value},
      Takes layout p r (fun _ _ v => v = (a.normal layout).value) →
      Takes layout p r fun lo h v => h.Shows (h.Since lo) v ((Snapshot.leaf a).normal layout) := by
    intro a p r hr
    exact hr.imp fun _ _ _ hv => .leaf hv
  cases s with
  | leaf a =>
    have ha : a.Kept layout := by
      cases hs with
      | leaf ha => exact ha
    cases a with
    | point p =>
      cases hd
      rw [List.append_nil]
      exact hleaf (takes_point hblock)
    | vector xs =>
      cases hd
      exact hleaf (takes_vector hread hblock ha)
    | pointVector ps =>
      cases hd
      exact hleaf (takes_pointVector hread hblock ha)
    | matrix m =>
      cases hd
      exact hleaf (takes_matrix hread hblock ha)
    | _ => cases hd
  | array elem items =>
    cases hd
    exact takes_array hblock hs hparts
  | list items =>
    cases hd
    cases hs with
    | list hlen _ => exact takes_list hblock hlen hparts
  | context vars => cases hd

end Description

/-! ### Contexts -/

/-- Fields that hold values set variables. -/
theorem exec_setFields {c : ContextId} {vars : List (Text × Value)} {gs : List Field}
    (hgs : List.Forall₂ (fun b g => g.name = b.1 ∧ g.value = some (.value b.2)) vars gs)
    (d : Decoder) (h : Heap) :
    (setFields c gs).exec ⟨d, h⟩ = (.ok (), ⟨d, h.setAll c vars⟩) := by
  induction hgs generalizing h with
  | nil => rfl
  | @cons b g vars gs hg _ ih =>
    obtain ⟨hname, hvalue⟩ := hg
    have hset : (setFields c (g :: gs)).exec ⟨d, h⟩
        = (setFields c gs).exec ⟨d, h.setVariable c b.1 b.2⟩ := by
      rw [setFields, hvalue, hname]
      rfl
    rw [hset, ih]
    rfl

/-- The fields of variables hold values under their names. -/
theorem fieldsOf_vars {vars : List (Text × Snapshot)} {lo : Nat} {h : Heap} {gs : List Field}
    (hgs : FieldsOf (fun s => Holding (s.normal layout)) (vars.map fun b => (b.2, b.1, [])) lo h
      gs) :
    ∃ vs : List (Text × Value),
      List.Forall₂ (fun b g => g.name = b.1 ∧ g.value = some (.value b.2)) vs gs ∧
      vs.map (·.1) = vars.map (·.1) ∧
      List.Forall₂ (h.Shows (h.Since lo)) (vs.map (·.2))
        ((Snapshot.normalVars layout vars).map (·.2)) := by
  induction vars generalizing gs with
  | nil =>
    cases hgs
    exact ⟨[], .nil, rfl, .nil⟩
  | cons b vars ih =>
    cases hgs with
    | @cons _ g _ gs hg hrest =>
      obtain ⟨vs, hvs, hnames, hshows⟩ := ih hrest
      obtain ⟨⟨v, hv, hs⟩, hname, -⟩ := hg
      exact ⟨(b.1, v) :: vs, .cons ⟨hname, hv⟩ hvs, by rw [List.map_cons, hnames, List.map_cons],
        .cons hs hshows⟩

/-- The context holds just the given variables, in order, and the contexts in them are not older
than number `lo`. -/
def Heap.Contains (h : Heap) (c : ContextId) (lo : Nat) (vars : List (Text × Snapshot)) : Prop :=
  (h.context c).names = vars.map (·.1) ∧
    List.Forall₂ (h.Shows (h.Since lo)) ((h.context c).vars.map (·.2)) (vars.map (·.2))

/-- A context is filled with the variables of a block; the contexts in them are new. -/
theorem readContext_back (hread : ReadsScalars read layout) {vars : List (Text × Snapshot)}
    (hs : (Snapshot.context vars).Kept layout)
    (hvars : ∀ b ∈ vars, ReadsBack read layout b.2) {c : ContextId} {h : Heap} {rest : List Piece}
    {d : Decoder} (hc : c < h.contexts.size)
    (hd : d.At layout (Piece.block (Snapshot.piecesVars vars) ++ rest)) :
    ∃ d' h', (readContext read c).exec ⟨d, h⟩ = (.ok (), ⟨d', h'⟩) ∧ d'.At layout rest ∧
      h.contexts.size ≤ h'.contexts.size ∧
      (∀ c', c' < h.contexts.size → c' ≠ c → h'.context c' = h.context c') ∧
      h'.Contains c h.contexts.size (Snapshot.normalVars layout vars) := by
  obtain ⟨hlen, hnodup, hbrief⟩ : vars.length < 2 ^ 63 ∧ (vars.map (·.1)).Nodup ∧
      ∀ b ∈ vars, b.1.length ≤ 2 ^ 28 := by
    cases hs with
    | context hlen hnodup hbrief _ => exact ⟨hlen, hnodup, hbrief⟩
  have hblock : Piece.block (Snapshot.piecesVars vars)
      = Piece.block ((vars.map fun b => (b.2, b.1, [])).map fun f => (f.1.pieces, f.2)) := by
    rw [Snapshot.piecesVars_eq, List.map_map]
    rfl
  rw [hblock] at hd
  have hback : ∀ f ∈ vars.map fun b => (b.2, b.1, ([] : Text)),
      ContentBack read layout f.1.pieces (Holding (f.1.normal layout)) ∧ Brief f.2 := by
    intro f hf
    obtain ⟨b, hb, rfl⟩ := List.mem_map.mp hf
    exact ⟨contentBack_snapshot (hvars b hb), hbrief b hb, Nat.zero_le _⟩
  obtain ⟨gs, d', h₁, hexec, hd', hg, hgs⟩ :=
    takes_block Snapshot.pieces (fun s => Holding (s.normal layout)) hread
      (by rwa [List.length_map]) hback rest d h hd
  obtain ⟨vs, hvs, hnames, hshows⟩ := fieldsOf_vars hgs
  have hc₁ : c < h₁.contexts.size := lt_of_lt_of_le hc hg.size_le
  have hcleared : ((h₁.clear c).context c).vars = [] := by
    rw [Heap.clear, Heap.context_update hc₁]
    rfl
  have hvars' : (((h₁.clear c).setAll c vs).context c).vars = vs := by
    have hset := Heap.vars_setAll (h := h₁.clear c) (c := c)
      (by rwa [Heap.size_clear]) (by rwa [hcleared, List.nil_append, hnames])
    rwa [hcleared, List.nil_append] at hset
  have hother : ∀ c', c' ≠ c → ((h₁.clear c).setAll c vs).context c' = h₁.context c' := by
    intro c' hne
    rw [Heap.context_setAll_of_ne hne, Heap.clear, Heap.context_update_of_ne hne]
  refine ⟨d', (h₁.clear c).setAll c vs, ?_, hd', ?_, ?_, ?_, ?_⟩
  · rw [readContext, Reading.exec_bind_ok hexec, Reading.exec_bind_ok (Reading.exec_onHeap _ _)]
    exact exec_setFields hvs d' (h₁.clear c)
  · rw [Heap.size_setAll, Heap.size_clear]
    exact hg.size_le
  · exact fun c' hc' hne => (hother c' hne).trans (hg.same c' hc')
  · rw [Context.names, hvars', hnames, Snapshot.normalVars_eq, List.map_map]
    rfl
  · rw [hvars']
    refine hshows.imp fun v s hv => hv.frame fun c' hc' => ⟨⟨hc'.1, ?_⟩, ?_⟩
    · rw [Heap.size_setAll, Heap.size_clear]
      exact hc'.2
    · rw [hother c' (Nat.ne_of_gt (lt_of_lt_of_le hc hc'.1))]

theorem takes_context (hread : ReadsScalars read layout) {vars : List (Text × Snapshot)}
    (hs : (Snapshot.context vars).Kept layout)
    (hvars : ∀ b ∈ vars, ReadsBack read layout b.2) :
    Takes layout (Piece.block (Snapshot.piecesVars vars)) (readParts read tag .context)
      fun lo h v => h.Shows (h.Since lo) v (.context (Snapshot.normalVars layout vars)) := by
  intro rest d h hd
  have hsize : (h.newContext []).2.contexts.size = h.contexts.size + 1 := Heap.size_newContext h []
  obtain ⟨d', h', hexec, hd', hle, hsame, hnames, hvalues⟩ :=
    readContext_back (h := (h.newContext []).2) hread hs hvars
      (by rw [hsize]; exact Nat.lt_succ_self _) hd
  rw [hsize] at hle hsame hvalues
  have hgrow : h.Grows h' := ⟨Nat.le_of_succ_le hle, fun c hc =>
    (hsame c (Nat.lt_succ_of_lt hc) (Nat.ne_of_lt hc)).trans (Heap.context_newContext h c)⟩
  refine ⟨.context h.contexts.size, d', h', ?_, hd', hgrow, .context ⟨le_rfl, hle⟩ hnames ?_⟩
  · rw [readParts, Reading.exec_bind_ok (Reading.exec_onHeap _ _), Heap.fst_newContext,
      Reading.exec_bind_ok hexec, Reading.exec_pure]
  · exact hvalues.imp fun v s hv => hv.grow (.refl h') (Nat.le_succ _)

/-! ### All values -/

variable {fuel : Nat}

theorem readsScalars {catalog : Catalog} {version : Int} (hfuel : 0 < fuel) :
    ReadsScalars (readRecord catalog version fuel) layout := by
  obtain ⟨k, rfl⟩ := Nat.exists_eq_succ_of_ne_zero (Nat.pos_iff_ne_zero.mp hfuel)
  exact fun s hs => readRecord_scalar hs.readAs

/-- A record of a composite value is read by its maker. -/
theorem readsBack_opening {s : Snapshot} {t : Text} {maker : Maker} {es : List Piece}
    (hpieces : s.pieces = .opening t :: es) (htag : t ≠ [] ∧ t.length ≤ 2 ^ 28)
    (hbuiltin : ScalarType.ofTag? t = none) (hmaker : Catalog.values t 1 = .ok maker)
    (hparts : Takes layout es (readParts (readRecord Catalog.values 1 fuel) t maker)
      fun lo h v => h.Shows (h.Since lo) v (s.normal layout)) :
    ReadsBack (readRecord Catalog.values 1 (fuel + 1)) layout s := by
  unfold ReadsBack
  rw [hpieces]
  exact readRecord_opening htag hbuiltin hmaker hparts

/-- A scalar is read back. -/
theorem readsBack_scalar {a : Leaf} {s : Scalar} (hs : s.Kept layout)
    (hpieces : a.pieces = [.scalar s])
    (hvalue : (s.normal layout).datum = .value (a.normal layout).value) :
    ReadsBack (readRecord Catalog.values 1 (fuel + 1)) layout (.leaf a) := by
  unfold ReadsBack
  rw [Snapshot.pieces, hpieces]
  refine (readRecord_scalar hs.readAs).imp ?_
  rintro _ _ _ rfl
  exact ⟨_, congrArg some hvalue, .leaf rfl⟩

/-- A value with a description is read back from a record with the same fields in front. -/
theorem readsBack_described {s : Snapshot} {d : Description} (hd : s.description? = some d)
    (hs : s.Kept layout) (hread : ReadsScalars (readRecord Catalog.values 1 fuel) layout)
    (hparts : ∀ t ∈ s.parts, ReadsBack (readRecord Catalog.values 1 fuel) layout t)
    {es : List Piece}
    (hblock : Describes (readRecord Catalog.values 1 fuel) layout es (d.fields.map (·.1))) :
    Takes layout (.opening d.tag :: (es ++ d.body)) (readRecord Catalog.values 1 (fuel + 1))
      (Holding (s.normal layout)) := by
  have htag := Description.wellTagged hd
  exact readRecord_opening htag.brief htag.builtin htag.maker
    (Description.takes_parts hd hs hread hparts hblock)

theorem length_pieces_le {s : Snapshot} {ss : List Snapshot} (hs : s ∈ ss) :
    s.pieces.length ≤ (Snapshot.piecesAll ss).length := by
  rw [Snapshot.piecesAll_eq, List.length_flatMap]
  exact List.single_le_sum (fun _ _ => Nat.zero_le _) _ (List.mem_map_of_mem hs)

theorem length_pieces_vars_le {b : Text × Snapshot} {vars : List (Text × Snapshot)}
    (hb : b ∈ vars) :
    b.2.pieces.length ≤ ((Snapshot.piecesVars vars).flatMap Piece.field).length := by
  rw [Snapshot.piecesVars_eq, List.flatMap_map, List.length_flatMap]
  refine le_trans ?_ (List.single_le_sum (fun _ _ => Nat.zero_le _) _ (List.mem_map_of_mem hb))
  rw [Piece.field, List.length_append]
  exact Nat.le_add_right _ _

theorem pieces_ne_nil (s : Snapshot) : s.pieces ≠ [] := by
  cases s with
  | leaf a => cases a <;> simp [Snapshot.pieces, Leaf.pieces]
  | _ => simp [Snapshot.pieces]

/-- The records of a part are among those behind the description. -/
theorem length_part_le {s t : Snapshot} {d : Description} (hd : s.description? = some d)
    (ht : t ∈ s.parts) : t.pieces.length ≤ d.body.length := by
  cases s with
  | leaf a => cases ht
  | array elem items =>
    cases hd
    exact length_pieces_le ht
  | list items =>
    cases hd
    exact length_pieces_le ht
  | context vars => cases hd

/-- A value with a description is read back if its parts are, since it needs two records more. -/
theorem readsBack_of_parts {s : Snapshot} {d : Description} (hd : s.description? = some d)
    (hs : s.Kept layout) (hfuel : s.pieces.length ≤ fuel)
    (hparts : ∀ t ∈ s.parts, ∀ k, t.pieces.length ≤ k →
      ReadsBack (readRecord Catalog.values 1 k) layout t) :
    ReadsBack (readRecord Catalog.values 1 fuel) layout s := by
  have hlen : d.body.length + 2 ≤ s.pieces.length := by
    rw [Description.pieces_eq hd, List.length_cons, List.length_append, Piece.scalarBlock,
      Piece.block, List.length_cons]
    omega
  obtain ⟨k, rfl⟩ : ∃ k, fuel = k + 1 := ⟨fuel - 1, by omega⟩
  have hread : ReadsScalars (readRecord Catalog.values 1 k) layout := readsScalars (by omega)
  unfold ReadsBack
  rw [Description.pieces_eq hd]
  refine readsBack_described hd hs hread (fun t ht => hparts t ht k ?_)
    (Description.describes hd hs hread)
  have := length_part_le hd ht
  omega

/-- **Every value that is kept is read back from its records.** -/
theorem readsBack {s : Snapshot} (hs : s.Kept layout) (hfuel : s.pieces.length ≤ fuel) :
    ReadsBack (readRecord Catalog.values 1 fuel) layout s := by
  induction s generalizing fuel with
  | leaf a =>
    obtain ⟨k, rfl⟩ := Nat.exists_eq_succ_of_ne_zero
      (Nat.ne_of_gt ((List.length_pos_iff.mpr (pieces_ne_nil _)).trans_le hfuel))
    have ha : a.Kept layout := by
      cases hs with
      | leaf ha => exact ha
    cases a with
    | int n => exact readsBack_scalar (s := .int n) trivial rfl rfl
    | real x => exact readsBack_scalar (s := .real x) trivial rfl rfl
    | bool b => exact readsBack_scalar (s := .bool b) trivial rfl rfl
    | text t => exact readsBack_scalar (s := .text t) ha rfl rfl
    | dateTime t => exact readsBack_scalar (s := .dateTime t) ha rfl rfl
    | timeSpan d => exact readsBack_scalar (s := .timeSpan d) trivial rfl rfl
    | _ => exact readsBack_of_parts rfl hs hfuel fun t ht => by cases ht
  | array elem ss ih =>
    have hitems : ∀ s ∈ ss, s.Kept layout := by
      cases hs with
      | array _ _ _ _ hitems => exact hitems
    exact readsBack_of_parts rfl hs hfuel fun t ht k hk => ih t ht (hitems t ht) hk
  | list ss ih =>
    cases hs with
    | list hlen hitems =>
      exact readsBack_of_parts rfl (.list hlen hitems) hfuel fun t ht k hk =>
        ih t ht (hitems t ht) hk
  | context vars ih =>
    rw [Snapshot.pieces, Piece.block, List.length_cons, List.length_cons] at hfuel
    obtain ⟨k, rfl⟩ : ∃ k, fuel = k + 1 := ⟨fuel - 1, by omega⟩
    have hvars : ∀ b ∈ vars, b.2.Kept layout := by
      cases hs with
      | context _ _ _ hvars => exact hvars
    refine readsBack_opening rfl (by decide) rfl rfl
      (takes_context (readsScalars (by omega)) hs fun b hmem => ih b hmem (hvars b hmem) ?_)
    have := length_pieces_vars_le hmem
    omega

end Reckoner
