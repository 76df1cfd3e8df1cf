import Reckoner.Proofs.Legible

/-!
# Fields appended to descriptions

A composite value is described by a block at the front of its records. A newer writer may append
fields to the block, and an older one may not have had all of them. A reader takes the block as a
whole, whatever its fields hold, so that it stays in step with the stream; it uses the fields that
it knows and takes those that are missing to be zero.
-/

namespace Reckoner

open Reading (Takes)

variable {layout : Layout}

/-! ### Blocks of more fields -/

/-- The records of what a field holds: a scalar, or something that nothing is known of. -/
def contentPieces : Scalar ⊕ List Piece → List Piece
  | .inl s => [.scalar s]
  | .inr es => es

/-- What is read for it. -/
def ContentRead (layout : Layout) : Scalar ⊕ List Piece → Nat → Heap → Option Datum → Prop
  | .inl s, _, _, d => d = some (s.normal layout).datum
  | .inr _, _, _, d => d ≠ none

/-- A block that goes on behind a description describes the same. -/
theorem describes_extended {read : RecordReader} (hread : ReadsScalars read layout)
    {fields : List (Scalar × Text × Text)} {extras : List (List Piece × Text × Text)}
    (hlen : fields.length + extras.length < 2 ^ 63)
    (hfields : ∀ f ∈ fields, f.1.Kept layout ∧ Brief f.2)
    (hextras : ∀ e ∈ extras, ContentBack read layout e.1 (fun _ _ d => d ≠ none) ∧ Brief e.2) :
    Describes read layout (Piece.block (fields.map (fun f => ([.scalar f.1], f.2)) ++ extras))
      (fields.map (·.1)) := by
  have hback : ∀ f ∈ fields.map (fun f => (Sum.inl f.1, f.2))
      ++ extras.map (fun e => (Sum.inr e.1, e.2)),
      ContentBack read layout (contentPieces f.1) (ContentRead layout f.1) ∧ Brief f.2 := by
    intro f hf
    rcases List.mem_append.mp hf with hf | hf
    · obtain ⟨g, hg, rfl⟩ := List.mem_map.mp hf
      exact ⟨contentBack_scalar hread (hfields g hg).1, (hfields g hg).2⟩
    · obtain ⟨e, he, rfl⟩ := List.mem_map.mp hf
      exact hextras e he
  have htakes := takes_block contentPieces (ContentRead layout) hread
    (by rwa [List.length_append, List.length_map, List.length_map]) hback
  rw [List.map_append, List.map_map, List.map_map] at htakes
  have hsame : (fun f : Sum Scalar (List Piece) × Text × Text => (contentPieces f.1, f.2))
      ∘ (fun e : List Piece × Text × Text => (Sum.inr e.1, e.2)) = id := rfl
  rw [hsame, List.map_id] at htakes
  refine htakes.imp fun lo h gs hgs => ⟨gs.take fields.length, gs.drop fields.length,
    (List.take_append_drop _ _).symm, ?_⟩
  have hfirst := List.forall₂_take fields.length hgs
  rw [List.take_left' (List.length_map ..), List.forall₂_map_left_iff] at hfirst
  rw [List.forall₂_map_left_iff]
  exact hfirst.imp fun f g hfg => hfg.1

/-! ### Values read from revised records -/

/-- The records of a value with a description that goes on. -/
def Description.extended (d : Description) (extras : List (List Piece × Text × Text)) :
    List Piece :=
  .opening d.tag :: (Piece.block (d.fields.map (fun f => ([.scalar f.1], f.2)) ++ extras) ++ d.body)

variable {s : Snapshot} {d : Description} {extras : List (List Piece × Text × Text)}

/-- **Appended fields do not matter.** A value is read from its records with legible fields behind
those of its description. -/
theorem takes_extended (hd : s.description? = some d) (hs : s.Kept layout)
    (hlen : extras.length + 2 < 2 ^ 63) (hextras : ∀ e ∈ extras, Legible layout e.1 ∧ Brief e.2)
    {fuel : Nat} (hfuel : Piece.extent layout (d.extended extras) ≤ fuel) :
    Takes layout (d.extended extras) (readRecord Catalog.values 1 (fuel + 1))
      (Holding (s.normal layout)) := by
  have hblock : Piece.extent layout
      (Piece.block (d.fields.map (fun f => ([.scalar f.1], f.2)) ++ extras))
        + Piece.extent layout d.body < fuel := by
    rw [← Piece.extent_append]
    exact (Nat.lt_of_succ_le (Piece.extent_cons _ _)).trans_le hfuel
  have hread : ReadsScalars (readRecord Catalog.values 1 fuel) layout := readsScalars (by omega)
  have hback : ∀ e ∈ extras,
      ContentBack (readRecord Catalog.values 1 fuel) layout e.1 fun _ _ d => d ≠ none := by
    intro e he
    have hin : e ∈ d.fields.map (fun f => ([.scalar f.1], f.2)) ++ extras :=
      List.mem_append_right _ he
    have hless : Piece.extent layout e.1 < _ := Piece.extent_field hin
    exact ⟨(hextras e he).1.takes (by omega), stable_const _, fun _ _ _ h => h⟩
  have hparts : ∀ t ∈ s.parts, ReadsBack (readRecord Catalog.values 1 fuel) layout t := by
    intro t ht
    have hle := length_part_le hd ht
    have hbody : d.body.length ≤ Piece.extent layout d.body := Piece.length_le_extent d.body
    exact readsBack (hs.part ht) (by omega)
  obtain ⟨hfew, hfields⟩ := Description.fields_kept hd hs
  exact readsBack_described hd hs hread hparts
    (describes_extended hread (by omega) hfields fun e he => ⟨hback e he, (hextras e he).2⟩)

/-- A point of which only some coordinates are known, the first ones. -/
def Point.known (p : Point) (count : Nat) : Point :=
  ⟨if 0 < count then p.x else .zero, if 1 < count then p.y else .zero⟩

theorem Binary64.normal_zero (layout : Layout) : Binary64.zero.normal layout = .zero := by
  rw [Binary64.normal, if_neg]
  exact fun h => absurd h.2 (by decide)

/-- The fields of the description of a point. -/
def Point.fields (p : Point) : List (Scalar × Text × Text) :=
  [(.real p.x, "x", []), (.real p.y, "y", [])]

theorem readReal_missing {gs : List Field} {i : Nat} (hg : gs[i]? = none) (h : Heap) :
    Field.readReal h gs i = .ok .zero := by
  simp only [Field.readReal, Field.read, hg]

/-- Coordinates are read from the fields that are there, and are zero where they are missing. -/
theorem readReal_known {p : Point} {count : Nat} {gs : List Field}
    (hgs : List.Forall₂ (fun f g => g.value = some (f.1.normal layout).datum) (p.fields.take count)
      gs) (h : Heap) :
    Field.readReal h gs 0 = .ok ((p.known count).x.normal layout) ∧
      Field.readReal h gs 1 = .ok ((p.known count).y.normal layout) := by
  match count with
  | 0 =>
    cases hgs
    have hzero := (Binary64.normal_zero layout).symm
    exact ⟨(readReal_missing rfl h).trans (congrArg _ hzero),
      (readReal_missing rfl h).trans (congrArg _ hzero)⟩
  | 1 =>
    obtain ⟨f, gs, hf, hnil, rfl⟩ := List.forall₂_cons_left_iff.mp hgs
    cases hnil
    exact ⟨readReal_value rfl hf h,
      (readReal_missing rfl h).trans (congrArg _ (Binary64.normal_zero layout).symm)⟩
  | count + 2 =>
    have hall : p.fields.take (count + 2) = p.fields := List.take_of_length_le (Nat.le_add_left _ _)
    rw [hall] at hgs
    obtain ⟨f, rest, hf, hrest, rfl⟩ := List.forall₂_cons_left_iff.mp hgs
    obtain ⟨g, rest, hg, hnil, rfl⟩ := List.forall₂_cons_left_iff.mp hrest
    cases hnil
    have hy : 1 < count + 2 := by omega
    rw [Point.known, if_pos (Nat.zero_lt_of_lt hy), if_pos hy]
    exact ⟨readReal_value rfl hf h, readReal_value rfl hg h⟩

/-- **Missing coordinates are zero.** A point is read from a description that lacks its last
fields. -/
theorem takes_known {fuel : Nat}
    (hread : ReadsScalars (readRecord Catalog.values 1 fuel) layout) (p : Point) (count : Nat) :
    Takes layout (.opening "point" :: Piece.scalarBlock (p.fields.take count))
      (readRecord Catalog.values 1 (fuel + 1))
      (Holding ((Snapshot.leaf (.point (p.known count))).normal layout)) := by
  have hfields : ∀ f ∈ p.fields.take count, f.1.Kept layout ∧ Brief f.2 := fun f hf =>
    Description.kept_pair (a := .real p.x) (b := .real p.y) trivial trivial (by decide) (by decide)
      f (List.mem_of_mem_take hf)
  have hlen : (p.fields.take count).length < 2 ^ 63 :=
    (List.length_take_le' _ _).trans_lt (by norm_num [Point.fields])
  refine readRecord_opening (by decide) rfl rfl ?_
  rw [readParts]
  refine (takes_scalarBlock hread hlen hfields).finish fun lo h gs hgs => ?_
  obtain ⟨hx, hy⟩ := readReal_known hgs h
  refine ⟨_, fun d => ?_, .leaf rfl⟩
  simp only [Reading.exec_bind, Reading.exec_heap, Reading.exec_result, hx, hy, Reading.exec_pure]
  rfl

end Reckoner
