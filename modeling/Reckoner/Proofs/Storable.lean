import Mathlib.Tactic
import Reckoner.Proofs.Composite
import Reckoner.Proofs.Cycle

/-!
# Values that can be stored

What is asked of a value to be stored: a condition on every value that can be reached from it, and
that no context that contains itself can be reached. Such a value has a snapshot that can be
stored, and writing it puts out the records of the snapshot.
-/

namespace Reckoner

/-- What is asked of a value itself, apart from what it holds. Lengths are bounded by what fits in
memory, texts and names by the longest token, and matrices by the most elements. -/
def Value.Fits (h : Heap) (layout : Layout) : Value → Prop
  | .text s => s.length ≤ 2 ^ 28
  | .dateTime t => t.Storable layout
  | .vector xs => xs.length < 2 ^ 63
  | .pointVector ps => ps.length < 2 ^ 63
  | .matrix m =>
    0 < m.rows ∧ 0 < m.cols ∧ m.rows * m.cols ≤ 2 ^ 24 ∧ m.data.length = m.rows * m.cols
  | .array elem items =>
    elem ∈ Kind.named ∧ elem ≠ .none ∧ items.length < 2 ^ 63 ∧ ∀ v ∈ items, v.kind = elem
  | .list items => items.length < 2 ^ 63
  | .context c =>
    (h.context c).vars.length < 2 ^ 63 ∧ (h.context c).names.Nodup ∧
      ∀ name ∈ (h.context c).names, name.length ≤ 2 ^ 28
  | .handle _ => False
  | .object _ _ => False
  | _ => True

namespace Heap

variable {h h' : Heap} {layout : Layout} {live : ContextId → Prop} {v w : Value} {s : Snapshot}

/-- The value can be stored: everything in it fits, and no context in it contains itself. -/
structure Storable (h : Heap) (layout : Layout) (v : Value) : Prop where
  /-- Whatever can be reached has a stored form by itself. -/
  fits : ∀ w, h.Reaches v w → w.Fits h layout
  /-- No context that can be reached comes back to itself. -/
  acyclic : ∀ c, h.Reaches v (.context c) → ¬ h.Cyclic c

theorem Storable.of_holds (hv : h.Storable layout v) (hw : h.Holds v w) : h.Storable layout w :=
  ⟨fun u hu => hv.fits u (.head hw hu), fun c hc => hv.acyclic c (.head hw hc)⟩

/-- A value that fits and whose parts can be stored can be stored: a context in it that contains
itself would be in one of its parts, too. -/
theorem Storable.of_parts (hv : v.Fits h layout) (hparts : ∀ w, h.Holds v w → h.Storable layout w) :
    h.Storable layout v where
  fits w hw := by
    rcases Relation.ReflTransGen.cases_head hw with rfl | ⟨u, hu, hrest⟩
    · exact hv
    · exact (hparts u hu).fits w hrest
  acyclic c hc hcycle := by
    rcases Relation.ReflTransGen.cases_head hc with rfl | ⟨u, hu, hrest⟩
    · obtain ⟨u, hu, hrest⟩ := Relation.TransGen.head'_iff.mp hcycle
      exact (hparts u hu).acyclic c hrest hcycle
    · exact (hparts u hu).acyclic c hrest hcycle

theorem storable_of_fits {a : Leaf} (ha : a.value.Fits h layout) :
    a.Storable layout := by
  cases a with
  | text s => exact ha
  | dateTime t => exact ha
  | vector xs => exact ha
  | pointVector ps => exact ha
  | matrix m => exact ha
  | _ => trivial

/-- What a value that can be stored holds can be stored. -/
theorem Storable.snapshot (hv : h.Storable layout v) (hs : h.Shows live v s) :
    s.Storable layout := by
  induction s generalizing v with
  | leaf a =>
    obtain rfl := shows_leaf hs
    exact .leaf (storable_of_fits (hv.fits _ .refl))
  | array elem ss ih =>
    cases hs with
    | @array _ items _ hss =>
      obtain ⟨hnamed, hne, hlen, hkind⟩ : Value.Fits h layout (.array elem items) :=
        hv.fits _ .refl
      have hback : ∀ s ∈ ss, ∃ w ∈ items, h.Shows live w s := fun s hs =>
        forall₂_of_mem hss.flip hs
      refine .array hnamed hne (by rwa [← hss.length_eq]) (fun s hs => ?_) fun s hs => ?_
      · obtain ⟨w, hw, hshow⟩ := hback s hs
        rw [← hshow.kind, hkind w hw]
      · obtain ⟨w, hw, hshow⟩ := hback s hs
        exact ih s hs (hv.of_holds (.array hw)) hshow
  | list ss ih =>
    cases hs with
    | @list items _ hss =>
      have hlen : Value.Fits h layout (.list items) := hv.fits _ .refl
      refine .list (by rwa [← hss.length_eq]) fun s hs => ?_
      obtain ⟨w, hw, hshow⟩ := forall₂_of_mem hss.flip hs
      exact ih s hs (hv.of_holds (.list hw)) hshow
  | context vars ih =>
    cases hs with
    | @context c _ _ hnames hss =>
      obtain ⟨hlen, hnodup, hbrief⟩ : Value.Fits h layout (.context c) := hv.fits _ .refl
      have hcount : (h.context c).vars.length = vars.length := by
        simpa using hss.length_eq
      refine .context (hcount ▸ hlen) (hnames ▸ hnodup) (fun b hb => ?_) fun b hb => ?_
      · exact hbrief b.1 (hnames ▸ List.mem_map_of_mem hb)
      · obtain ⟨w, hw, hshow⟩ := forall₂_of_mem hss.flip (List.mem_map_of_mem hb)
        obtain ⟨⟨name, w⟩, hmem, rfl⟩ := List.mem_map.mp hw
        exact ih b hb (hv.of_holds (.var hmem)) hshow

theorem writable_of_fits (hv : v.Fits h layout) : v.Writable layout := by
  cases v with
  | dateTime t =>
    rintro rfl
    obtain ⟨bytes, hb, -⟩ := DateTime.Storable.pack hv
    rw [hb]
    rfl
  | handle t => exact hv.elim
  | object tag o => exact hv.elim
  | _ => trivial

/-- **A value that can be stored is written as the records of what it holds.** -/
theorem Storable.written (hv : h.Storable layout v) :
    ∃ s, h.Shows (fun _ => True) v s ∧ s.Storable layout ∧
      h.writeValue layout (some v) = ⟨s.bytes layout, none⟩ := by
  obtain ⟨s, hs, hwrite⟩ := write_acyclic (enough_depthBound le_rfl)
    (fun w hw => writable_of_fits (hv.fits w hw)) fun ⟨c, hr, hc⟩ => hv.acyclic c hr hc
  exact ⟨s, hs, hv.snapshot hs, hwrite⟩

end Heap

end Reckoner
