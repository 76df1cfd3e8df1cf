import Mathlib.Tactic
import Reckoner.Proofs.Storable

/-!
# Copies

A value is stored as a copy, which is its snapshot. What has a snapshot that can be stored is
written as the records of the snapshot, and what is read back can be stored again. A value that a
handle or a cycle can be reached from has no stored form, whatever else it holds.
-/

namespace Reckoner

/-! ### Snapshots and layouts -/

/-- The layout `bound` holds nothing that the other one does not: lines are the narrower layout. -/
def Layout.Narrower (bound layout : Layout) : Prop := layout = bound ∨ bound = .lines

variable {bound layout : Layout}

theorem DateTime.Storable.wider {t : DateTime} (ht : t.Storable bound)
    (hbound : bound.Narrower layout) : t.Storable layout := by
  rcases hbound with rfl | rfl
  · exact ht
  · obtain ⟨m, hm, hne, hlines, -⟩ := ht.zone
    obtain ⟨hlow, hhigh⟩ := hlines rfl
    exact ⟨ht.timely, m, hm, hne, fun _ => ⟨hlow, hhigh⟩, fun _ => by omega⟩

theorem DateTime.Storable.normal {t : DateTime} (ht : t.Storable bound) (layout : Layout) :
    (t.normal layout).Storable bound := by
  unfold DateTime.normal
  split
  · next hzone =>
    have hcivil : DateTime.civil { t with zone := .utc } = t.civil := by
      unfold DateTime.civil
      simp only [hzone.2]
      rfl
    obtain ⟨hseconds, hnanos, hyear⟩ := ht.timely
    exact ⟨⟨hseconds, hnanos, hcivil ▸ hyear⟩, 0, rfl, by omega, fun _ => by omega,
      fun _ => by omega⟩
  · exact ht

theorem Leaf.Storable.wider {a : Leaf} (ha : a.Storable bound) (hbound : bound.Narrower layout) :
    a.Storable layout := by
  cases a with
  | dateTime t => exact DateTime.Storable.wider ha hbound
  | _ => exact ha

theorem Leaf.Storable.normal {a : Leaf} (ha : a.Storable bound) (layout : Layout) :
    (a.normal layout).Storable bound := by
  cases a with
  | dateTime t => exact DateTime.Storable.normal ha layout
  | vector xs => simpa [Leaf.normal, Leaf.Storable] using ha
  | pointVector ps => simpa [Leaf.normal, Leaf.Storable] using ha
  | matrix m => simpa [Leaf.normal, Leaf.Storable] using ha
  | _ => exact ha

namespace Snapshot

variable {s t : Snapshot}

theorem Storable.wider (hs : s.Storable bound) (hbound : bound.Narrower layout) :
    s.Storable layout := hs.mono fun _ ha => ha.wider hbound

/-- **What is read back can be stored again.** -/
theorem Storable.normal (hs : s.Storable bound) (layout : Layout) :
    (s.normal layout).Storable bound := Built.normal hs fun _ ha => ha.normal layout

end Snapshot

namespace Heap

variable {h h' : Heap} {live : ContextId → Prop} {v w : Value} {s : Snapshot} {c : ContextId}

/-! ### Writing a snapshot -/

theorem Shows.writable (hs : h.Shows live v s) (hstorable : s.Storable layout) :
    v.Writable layout := by
  cases hs with
  | @leaf a _ hv =>
    subst hv
    cases hstorable with
    | leaf ha =>
      cases a with
      | dateTime t =>
        rintro rfl
        obtain ⟨bytes, hbytes, -⟩ := DateTime.Storable.pack ha
        simp [hbytes]
      | _ => trivial
  | array _ => trivial
  | list _ => trivial
  | context _ _ _ => trivial

/-- What has a snapshot is written as its records, if the layout can write all of it. The writer
writes some snapshot of it, and there is only one. -/
theorem Shows.written_of_writable (hs : h.Shows live v s)
    (hwritable : ∀ w, h.Reaches v w → w.Writable layout) :
    h.writeValue layout (some v) = ⟨s.bytes layout, none⟩ := by
  have hacyclic : ¬ h.ReachesCycle v := fun ⟨c, hc, hcycle⟩ => hs.not_cyclic hc hcycle
  obtain ⟨s', hs', hwrite⟩ := write_acyclic (enough_depthBound le_rfl) hwritable hacyclic
  rw [hs.unique hs']
  exact hwrite

/-- **What has a snapshot that can be stored is written as its records.** -/
theorem Shows.written (hs : h.Shows live v s) (hstorable : s.Storable layout) :
    h.writeValue layout (some v) = ⟨s.bytes layout, none⟩ := by
  refine hs.written_of_writable fun w hw => ?_
  obtain ⟨t, ht, htstorable⟩ := hs.reaches (fun _ hs _ ht => hs.part ht) hstorable hw
  exact ht.writable htstorable

/-! ### Values without a stored form -/

/-- A handle or a context that contains itself can be reached. -/
def Unstorable (h : Heap) (v : Value) : Prop := (∃ t, h.Reaches v (.handle t)) ∨ h.ReachesCycle v

/-- The value can be written out at this depth, inside of some contexts. -/
def Finishes (h : Heap) (layout : Layout) (fuel : Nat) (v : Value) : Prop :=
  ∃ inside, (v.write layout (h.outlet layout fuel inside)).error = none

/-- What is held is written out, too, and inside of a context at a smaller depth. -/
theorem Finishes.held {fuel : Nat} (hf : h.Finishes layout fuel v) (hw : h.Holds v w) :
    ∃ fuel', fuel' ≤ fuel ∧ (∀ c, v = .context c → fuel' < fuel) ∧
      h.Finishes layout fuel' w := by
  obtain ⟨inside, hf⟩ := hf
  cases hw with
  | array hmem =>
    rw [Value.write_array_error, Emission.each_error] at hf
    exact ⟨fuel, le_rfl, (fun _ hc => by cases hc), inside, hf w hmem⟩
  | list hmem =>
    rw [Value.write_list_error, Emission.each_error] at hf
    exact ⟨fuel, le_rfl, (fun _ hc => by cases hc), inside, hf w hmem⟩
  | @var d name _ hb =>
    rw [Value.write_context_error] at hf
    cases fuel with
    | zero => cases hf
    | succ fuel =>
      rcases outlet_context h layout fuel inside d with ⟨-, heq⟩ | ⟨-, _, _, _, -, -, heq⟩ |
        ⟨-, -, heq⟩
      · rw [heq] at hf
        cases hf
      · rw [heq] at hf
        cases hf
      · rw [heq] at hf
        exact ⟨fuel, Nat.le_succ fuel, fun _ _ => Nat.lt_succ_self fuel, d :: inside,
          Record.block_done hf _ (List.mem_map_of_mem hb)⟩

theorem Finishes.reached {fuel : Nat} (hf : h.Finishes layout fuel v) (hw : h.Reaches v w) :
    ∃ fuel', fuel' ≤ fuel ∧ h.Finishes layout fuel' w := by
  induction hw with
  | refl => exact ⟨fuel, le_rfl, hf⟩
  | tail _ hstep ih =>
    obtain ⟨fuel', hle, hf'⟩ := ih
    obtain ⟨fuel'', hle', -, hf''⟩ := hf'.held hstep
    exact ⟨fuel'', hle'.trans hle, hf''⟩

/-- A context that contains itself would be written out at smaller and smaller depths. -/
theorem Finishes.not_cyclic {fuel : Nat} (hf : h.Finishes layout fuel (.context c)) :
    ¬ h.Cyclic c := by
  intro hcycle
  induction fuel using Nat.strong_induction_on with
  | _ fuel ih =>
    obtain ⟨u, hstep, hrest⟩ := Relation.TransGen.head'_iff.mp hcycle
    obtain ⟨fuel', -, hlt, hf'⟩ := hf.held hstep
    obtain ⟨fuel'', hle, hf''⟩ := hf'.reached hrest
    exact ih fuel'' (hle.trans_lt (hlt c rfl)) hf''

/-- A value with a snapshot that is written out is one that the layout can write. -/
theorem Finishes.writable {fuel : Nat} (hf : h.Finishes layout fuel v) (hs : h.Shows live v s) :
    v.Writable layout := by
  obtain ⟨inside, hf⟩ := hf
  cases hs with
  | @leaf a _ hv =>
    subst hv
    cases a with
    | dateTime t =>
      rintro rfl
      cases hpack : t.pack? with
      | none =>
        simp only [Leaf.value, Value.write, Record.scalar, Record.packedPayload, hpack] at hf
        cases (Emission.andThen_error.mp hf).2
      | some bytes => rfl
    | _ => trivial
  | array _ => trivial
  | list _ => trivial
  | context _ _ _ => trivial

/-- **What is written without an error is written whole.** -/
theorem Shows.written_of_done (hs : h.Shows live v s)
    (hdone : (h.writeValue layout (some v)).error = none) :
    h.writeValue layout (some v) = ⟨s.bytes layout, none⟩ ∧
      ∀ w, h.Reaches v w → w.Writable layout := by
  have hf : h.Finishes layout h.depthBound v := ⟨[], hdone⟩
  have hwritable : ∀ w, h.Reaches v w → w.Writable layout := by
    intro w hw
    obtain ⟨t, ht, -⟩ := hs.reaches (P := fun _ => True) (fun _ _ _ _ => trivial) trivial hw
    obtain ⟨fuel, -, hf⟩ := hf.reached hw
    exact hf.writable ht
  exact ⟨hs.written_of_writable hwritable, hwritable⟩

/-- **What has no stored form cannot be written.** -/
theorem Unstorable.write_error (hv : h.Unstorable v) :
    (h.writeValue layout (some v)).error ≠ none := by
  intro hok
  have hf : h.Finishes layout h.depthBound v := ⟨[], hok⟩
  rcases hv with ⟨t, ht⟩ | ⟨c, hc, hcycle⟩
  · obtain ⟨fuel, -, inside, hhandle⟩ := hf.reached ht
    rw [Value.write] at hhandle
    cases hhandle
  · obtain ⟨fuel, -, hf'⟩ := hf.reached hc
    exact hf'.not_cyclic hcycle

/-! ### Contexts that are reached -/

theorem forall₂_imp_of_mem {α β : Type} {R S : α → β → Prop} {xs : List α} {ys : List β}
    (hr : List.Forall₂ R xs ys) (hsub : ∀ x ∈ xs, ∀ y ∈ ys, R x y → S x y) :
    List.Forall₂ S xs ys := by
  induction hr with
  | nil => exact .nil
  | cons hxy _ ih =>
    exact .cons (hsub _ List.mem_cons_self _ List.mem_cons_self hxy)
      (ih fun x hx y hy => hsub x (List.mem_cons_of_mem _ hx) y (List.mem_cons_of_mem _ hy))

/-- Only the contexts that are reached matter. -/
theorem Shows.of_reaches (hs : h.Shows live v s) :
    h.Shows (fun c => live c ∧ h.Reaches v (.context c)) v s := by
  have hstep : ∀ {v w : Value} {t : Snapshot}, h.Holds v w →
      h.Shows (fun c => live c ∧ h.Reaches w (.context c)) w t →
      h.Shows (fun c => live c ∧ h.Reaches v (.context c)) w t := fun hw ht =>
    ht.frame fun c hc => ⟨⟨hc.1, .head hw hc.2⟩, rfl⟩
  induction s generalizing v with
  | leaf a =>
    cases hs with
    | leaf hv => exact .leaf hv
  | array elem ss ih =>
    cases hs with
    | array hs =>
      exact .array (forall₂_imp_of_mem hs fun w hw t ht hshow => hstep (.array hw) (ih t ht hshow))
  | list ss ih =>
    cases hs with
    | list hs =>
      exact .list (forall₂_imp_of_mem hs fun w hw t ht hshow => hstep (.list hw) (ih t ht hshow))
  | context vars ih =>
    cases hs with
    | context hc hn hs =>
      refine .context ⟨hc, .refl⟩ hn (forall₂_imp_of_mem hs fun w hw t ht hshow => ?_)
      obtain ⟨⟨name, w⟩, hb, rfl⟩ := List.mem_map.mp hw
      obtain ⟨b, hmem, rfl⟩ := List.mem_map.mp ht
      exact hstep (.var hb) (ih b hmem hshow)

end Heap

end Reckoner
