import Mathlib.Tactic
import Reckoner.Proofs.Pieces

/-!
# Contexts that contain themselves

Writing a value fails exactly if a context that contains itself can be reached from it, and
otherwise puts out the records of what the value holds. The walk is inside of some contexts at
every point, all of them different, so that it can never be deeper than there are contexts; and
each of them holds what is being written, so that meeting one of them again closes a cycle.
-/

namespace Reckoner

/-- The value, apart from what it holds, can be written: it is no thing of the host, and an
instant has a packed form if it needs one. -/
def Value.Writable (layout : Layout) : Value → Prop
  | .handle _ => False
  | .object _ _ => False
  | .dateTime t => layout = .packed → t.pack?.isSome
  | _ => True

namespace Emission

theorem andThen_failed {a : Emission} {b : Unit → Emission} {e : Error}
    (h : (a.andThen b).error = some e) : a.error = some e ∨ (b ()).error = some e := by
  unfold andThen at h
  cases ha : a.error with
  | some e' =>
    rw [ha] at h
    exact .inl (ha ▸ h)
  | none =>
    rw [ha] at h
    exact .inr h

theorem each_failed {α : Type} {write : α → Emission} {xs : List α} {e : Error}
    (h : (each write xs).error = some e) : ∃ x ∈ xs, (write x).error = some e := by
  induction xs with
  | nil => cases h
  | cons x xs ih =>
    rcases andThen_failed h with hx | hxs
    · exact ⟨x, List.mem_cons_self, hx⟩
    · obtain ⟨y, hy, he⟩ := ih hxs
      exact ⟨y, List.mem_cons_of_mem x hy, he⟩

end Emission

namespace Record

/-- Only instants can lack a form. -/
theorem scalar_error {layout : Layout} {s : Scalar}
    (h : ∀ t, s = .dateTime t → layout = .packed → t.pack?.isSome) :
    (scalar layout s).error = none := by
  cases layout with
  | lines => rfl
  | packed =>
    cases s with
    | dateTime t =>
      obtain ⟨bytes, hb⟩ := Option.isSome_iff_exists.mp (h t rfl rfl)
      simp [scalar, packedPayload, Emission.andThen, hb]
    | _ => rfl

theorem opening_error (layout : Layout) (tag : Text) : (opening layout tag).error = none := by
  cases layout <;> rfl

theorem text_error (layout : Layout) (t : Text) : (scalar layout (.text t)).error = none :=
  scalar_error fun _ h => by cases h

theorem scalarBlock_error {layout : Layout} {fields : List (Scalar × Text × Text)}
    (h : ∀ f ∈ fields, ∀ t, f.1 ≠ .dateTime t) : (scalarBlock layout fields).error = none := by
  unfold scalarBlock block
  rw [Emission.andThen_error, Emission.each_error]
  refine ⟨scalar_error fun _ h => (by cases h), fun f hf => ?_⟩
  unfold field
  rw [Emission.andThen_error, Emission.andThen_error]
  exact ⟨scalar_error fun t ht => absurd ht (h f hf t), text_error _ _, text_error _ _⟩

/-- A block fails because a field does. -/
theorem block_failed {α : Type} {layout : Layout} {write : α → Emission}
    {fields : List (α × Text × Text)} {e : Error} (h : (block layout write fields).error = some e) :
    ∃ f ∈ fields, (write f.1).error = some e := by
  have hcount : (count layout fields.length).error = none := scalar_error fun _ h => by cases h
  rcases Emission.andThen_failed h with h | h
  · rw [hcount] at h
    cases h
  · obtain ⟨f, hf, he⟩ := Emission.each_failed h
    rcases Emission.andThen_failed he with he | he
    · exact ⟨f, hf, he⟩
    · rcases Emission.andThen_failed he with he | he
      · rw [text_error] at he
        cases he
      · rw [text_error] at he
        cases he

theorem block_done {α : Type} {layout : Layout} {write : α → Emission}
    {fields : List (α × Text × Text)} (h : (block layout write fields).error = none) :
    ∀ f ∈ fields, (write f.1).error = none := by
  obtain ⟨-, hfields⟩ := Emission.andThen_error.mp h
  intro f hf
  exact (Emission.andThen_error.mp (Emission.each_error.mp hfields f hf)).1

end Record

/-- The records of a leaf, all of them scalars but no instants unless the leaf is one. -/
theorem Leaf.write_error {layout : Layout} {a : Leaf} (h : a.value.Writable layout)
    (out : Outlet) : (a.value.write layout out).error = none := by
  have hreals : ∀ xs, (Value.writeReals layout xs).error = none := fun xs =>
    Emission.each_error.mpr fun x _ => Record.scalar_error fun _ h => by cases h
  cases a with
  | dateTime t =>
    refine Record.scalar_error fun u hu hl => ?_
    cases hu
    exact h hl
  | point p =>
    refine Emission.andThen_error.mpr ⟨Record.opening_error _ _, Record.scalarBlock_error ?_⟩
    simp
  | vector xs =>
    refine Emission.andThen_error.mpr ⟨Record.opening_error _ _,
      Emission.andThen_error.mpr ⟨Record.scalarBlock_error ?_, hreals _⟩⟩
    simp
  | pointVector ps =>
    refine Emission.andThen_error.mpr ⟨Record.opening_error _ _,
      Emission.andThen_error.mpr ⟨Record.scalarBlock_error ?_, hreals _⟩⟩
    simp
  | matrix m =>
    refine Emission.andThen_error.mpr ⟨Record.opening_error _ _,
      Emission.andThen_error.mpr ⟨Record.scalarBlock_error ?_, hreals _⟩⟩
    simp
  | _ => exact Record.scalar_error fun _ h => by cases h

namespace Value

variable {layout : Layout} {out : Outlet} {elem : Kind} {items : List Value} {e : Error}

/-- The records in front of the items of a sequence cannot fail. -/
theorem head_andThen {fields : List (Scalar × Text × Text)} {tag : Text} {rest : Unit → Emission}
    (hfields : ∀ f ∈ fields, ∀ t, f.1 ≠ .dateTime t) :
    ((Record.opening layout tag).andThen fun _ =>
      (Record.scalarBlock layout fields).andThen rest).error = (rest ()).error := by
  have hopen := Record.opening_error layout tag
  have hblock : (Record.scalarBlock layout fields).error = none :=
    Record.scalarBlock_error hfields
  unfold Emission.andThen
  rw [hopen]
  simp only [hblock]

theorem write_array_error : ((array elem items).write layout out).error
    = (Emission.each (Value.write layout out) items).error := by
  rw [Value.write, head_andThen (by simp), writeItems_eq]

theorem write_list_error : ((list items).write layout out).error
    = (Emission.each (Value.write layout out) items).error := by
  rw [Value.write, lengthBlock, head_andThen (by simp), writeItems_eq]

theorem write_context_error {c : ContextId} :
    ((context c).write layout out).error = (out.context c).error := by
  have hopen := Record.opening_error layout "context"
  rw [Value.write]
  unfold Emission.andThen
  rw [hopen]

end Value

namespace Heap

variable {h : Heap} {layout : Layout}

/-! ### The contexts that the walk is inside of -/

/-- The walk is inside of the contexts `inside`: they are different contexts of the heap. -/
structure Inside (h : Heap) (inside : List ContextId) : Prop where
  /-- No context is entered twice. -/
  nodup : inside.Nodup
  /-- All of them are contexts of the heap, so there are no more than it has. -/
  lt : ∀ d ∈ inside, d < h.contexts.size

theorem Inside.length_le {inside : List ContextId} (hin : h.Inside inside) :
    inside.length ≤ h.contexts.size := by
  have hsub : inside ⊆ List.range h.contexts.size := fun d hd => List.mem_range.mpr (hin.lt d hd)
  simpa using (hin.nodup.subperm hsub).length_le

theorem inside_nil (h : Heap) : h.Inside [] := ⟨List.nodup_nil, fun _ hd => by cases hd⟩

/-- A context with variables is one of the heap. -/
theorem lt_of_var {c : ContextId} {b : Text × Value} (hb : b ∈ (h.context c).vars) :
    c < h.contexts.size := by
  by_contra hc
  have hnone : h.contexts[c]? = none := Array.getElem?_eq_none (Nat.le_of_not_lt hc)
  rw [context, hnone] at hb
  cases hb

theorem Inside.cons {inside : List ContextId} (hin : h.Inside inside) {c : ContextId}
    (hc : c ∉ inside) {b : Text × Value} (hb : b ∈ (h.context c).vars) :
    h.Inside (c :: inside) := by
  refine ⟨List.nodup_cons.mpr ⟨hc, hin.nodup⟩, fun d hd => ?_⟩
  rcases List.mem_cons.mp hd with rfl | hd
  · exact lt_of_var hb
  · exact hin.lt d hd

/-- The walk has enough fuel for all contexts that it is not inside of. -/
def Enough (h : Heap) (fuel : Nat) (inside : List ContextId) : Prop :=
  h.contexts.size + 2 ≤ fuel + inside.length

theorem Enough.pos {fuel : Nat} {inside : List ContextId} (hf : h.Enough fuel inside)
    (hin : h.Inside inside) : ∃ k, fuel = k + 1 := by
  have := hin.length_le
  unfold Enough at hf
  exact ⟨fuel - 1, by omega⟩

theorem Enough.cons {fuel : Nat} {inside : List ContextId} (hf : h.Enough (fuel + 1) inside)
    (c : ContextId) : h.Enough fuel (c :: inside) := by
  unfold Enough at *
  rw [List.length_cons]
  omega

theorem enough_depthBound {fuel : Nat} (hf : h.depthBound ≤ fuel) : h.Enough fuel [] := by
  unfold Enough
  unfold depthBound at hf
  have : h.contexts.size + 2 ≤ (h.contexts.size + 2) * (h.objects.size + 2) :=
    Nat.le_mul_of_pos_right _ (by omega)
  simp only [List.length_nil, Nat.add_zero]
  omega

/-- What happens when a context is met: it is refused, because the walk is inside of it or a
variable says so, or its variables are written one level deeper. -/
theorem outlet_context (h : Heap) (layout : Layout) (fuel : Nat) (inside : List ContextId)
    (c : ContextId) :
    (c ∈ inside ∧ (h.outlet layout (fuel + 1) inside).context c = .fail (.cycle [])) ∨
    (c ∉ inside ∧ ∃ name v e, (name, v) ∈ (h.context c).vars ∧
      v.refusal? (c :: inside) name = some e ∧
      (h.outlet layout (fuel + 1) inside).context c = .fail e) ∨
    (c ∉ inside ∧ (∀ b ∈ (h.context c).vars, b.2.refusal? (c :: inside) b.1 = none) ∧
      (h.outlet layout (fuel + 1) inside).context c
        = Record.block layout (Value.write layout (h.outlet layout fuel (c :: inside)))
          ((h.context c).vars.map fun b => (b.2, b.1, []))) := by
  by_cases hc : c ∈ inside
  · exact .inl ⟨hc, by rw [outlet]; simp only [if_pos hc]⟩
  · refine .inr ?_
    rw [outlet]
    simp only [if_neg hc]
    cases hfind : (h.context c).vars.findSome? fun b => b.2.refusal? (c :: inside) b.1 with
    | some e =>
      obtain ⟨b, hb, he⟩ := List.exists_of_findSome?_eq_some hfind
      exact .inl ⟨hc, b.1, b.2, e, hb, he, rfl⟩
    | none => exact .inr ⟨hc, List.findSome?_eq_none_iff.mp hfind, rfl⟩

/-! ### Failing -/

/-- The variable that keeps a context from being written closes a cycle, or is a handle. -/
theorem refusal_some {inside : List ContextId} {name : Text} {v : Value} {e : Error}
    (hr : v.refusal? inside name = some e) :
    (∃ c ∈ inside, v = .context c ∧ e = .cycle name) ∨ ∃ t, v = .handle t := by
  unfold Value.refusal? at hr
  split at hr
  · rename_i c
    split at hr
    · rename_i hc
      exact .inl ⟨c, hc, rfl, (Option.some.inj hr).symm⟩
    · cases hr
  · exact .inr ⟨_, rfl⟩
  · cases hr

/-- What a failed write says: it is a cycle, and there is one. -/
def Blames (h : Heap) (v : Value) (e : Error) : Prop :=
  (∃ name, e = .cycle name) ∧ ∃ c, h.Reaches v (.context c) ∧ h.Cyclic c

theorem Blames.of_holds {v w : Value} {e : Error} (hb : h.Blames w e) (hw : h.Holds v w) :
    h.Blames v e := by
  obtain ⟨hname, c, hc, hcycle⟩ := hb
  exact ⟨hname, c, .head hw hc, hcycle⟩

/-- **Only cycles fail.** The walk stands at `v` inside of contexts that all hold it. -/
theorem write_failed {fuel : Nat} {inside : List ContextId} {v : Value} {e : Error}
    (hin : h.Inside inside) (hf : h.Enough fuel inside)
    (hhold : ∀ d ∈ inside, Relation.TransGen h.Holds (.context d) v)
    (hw : ∀ w, h.Reaches v w → w.Writable layout)
    (he : (v.write layout (h.outlet layout fuel inside)).error = some e) : h.Blames v e := by
  induction fuel generalizing inside v with
  | zero =>
    obtain ⟨k, hk⟩ := hf.pos hin
    omega
  | succ fuel ih =>
    induction v using Value.byParts with
    | leaf a =>
      rw [Leaf.write_error (hw _ .refl)] at he
      cases he
    | array elem items iha =>
      rw [Value.write_array_error] at he
      obtain ⟨w, hmem, he⟩ := Emission.each_failed he
      have hstep : h.Holds (.array elem items) w := .array hmem
      exact (iha w hmem (fun d hd => (hhold d hd).tail hstep) (fun u hu => hw u (.head hstep hu))
        he).of_holds hstep
    | list items ihl =>
      rw [Value.write_list_error] at he
      obtain ⟨w, hmem, he⟩ := Emission.each_failed he
      have hstep : h.Holds (.list items) w := .list hmem
      exact (ihl w hmem (fun d hd => (hhold d hd).tail hstep) (fun u hu => hw u (.head hstep hu))
        he).of_holds hstep
    | context c =>
      rw [Value.write_context_error] at he
      rcases outlet_context h layout fuel inside c with ⟨hc, heq⟩ | ⟨hc, name, v, e', hv, hr, heq⟩ |
        ⟨hc, hr, heq⟩
      · rw [heq] at he
        exact ⟨⟨[], (Option.some.inj he).symm⟩, c, .refl, hhold c hc⟩
      · rw [heq] at he
        obtain rfl : e' = e := Option.some.inj he
        have hstep : h.Holds (.context c) v := .var hv
        rcases refusal_some hr with ⟨d, hd, rfl, rfl⟩ | ⟨t, rfl⟩
        · refine ⟨⟨name, rfl⟩, d, .single hstep, ?_⟩
          rcases List.mem_cons.mp hd with rfl | hd
          · exact .single hstep
          · exact (hhold d hd).tail hstep
        · exact (hw _ (.single hstep)).elim
      · rw [heq] at he
        obtain ⟨f, hmem, he⟩ := Record.block_failed he
        obtain ⟨b, hb, rfl⟩ := List.mem_map.mp hmem
        have hstep : h.Holds (.context c) b.2 := .var hb
        refine (ih (hin.cons hc hb) (hf.cons c) (fun d hd => ?_)
          (fun u hu => hw u (.head hstep hu)) he).of_holds hstep
        rcases List.mem_cons.mp hd with rfl | hd
        · exact .single hstep
        · exact (hhold d hd).tail hstep
    | handle t => exact (hw _ .refl).elim
    | object tag o => exact (hw _ .refl).elim

/-! ### Finishing -/

/-- No user-defined object can be reached. -/
def Plain (h : Heap) (v : Value) : Prop := ∀ w, h.Reaches v w → ∀ tag o, w ≠ .object tag o

theorem Plain.of_holds {v w : Value} (hp : h.Plain v) (hw : h.Holds v w) : h.Plain w :=
  fun u hu => hp u (.head hw hu)

/-- The context was written out by an outlet. -/
def WrittenOut (h : Heap) (layout : Layout) (c : ContextId) (e : Emission) : Prop :=
  ∃ vars, h.Shows (fun _ => True) (.context c) (.context vars) ∧
    e = Piece.writeAll layout (Piece.block (Snapshot.piecesVars vars))

/-- The part of a walk between contexts: if contexts that finish have been written out, then all
values have. -/
theorem write_finished_of {out : Outlet} {v : Value} (hp : h.Plain v)
    (hout : ∀ c, h.Plain (.context c) → (out.context c).error = none →
      h.WrittenOut layout c (out.context c))
    (he : (v.write layout out).error = none) :
    ∃ s, h.Shows (fun _ => True) v s ∧ v.write layout out = Piece.writeAll layout s.pieces := by
  induction v using Value.byParts with
  | leaf a => exact ⟨.leaf a, .leaf rfl, a.write_eq layout out⟩
  | array elem items ih =>
    rw [Value.write_array_error, Emission.each_error] at he
    obtain ⟨ss, hss⟩ := forall₂_exists fun w hw => ih w hw (hp.of_holds (.array hw)) (he w hw)
    have hshow := hss.imp fun _ _ h => h.1
    have hwrite := hss.imp fun _ _ h => h.2
    refine ⟨.array elem ss, .array hshow, ?_⟩
    rw [Value.write, Snapshot.writeItems_eq hwrite, Snapshot.pieces, Piece.writeAll_cons,
      Piece.writeAll_append, Snapshot.arrayHead, ← Piece.write_scalarBlock, hshow.length_eq]
    rfl
  | list items ih =>
    rw [Value.write_list_error, Emission.each_error] at he
    obtain ⟨ss, hss⟩ := forall₂_exists fun w hw => ih w hw (hp.of_holds (.list hw)) (he w hw)
    have hshow := hss.imp fun _ _ h => h.1
    have hwrite := hss.imp fun _ _ h => h.2
    refine ⟨.list ss, .list hshow, ?_⟩
    rw [Value.write, Snapshot.writeItems_eq hwrite, Snapshot.pieces, Piece.writeAll_cons,
      Piece.writeAll_append, Piece.length, ← Piece.write_scalarBlock, hshow.length_eq]
    rfl
  | context c =>
    rw [Value.write_context_error] at he
    obtain ⟨vars, hshow, hwrite⟩ := hout c hp he
    refine ⟨.context vars, hshow, ?_⟩
    rw [Value.write, hwrite, Snapshot.pieces, Piece.writeAll_cons]
    rfl
  | handle t => cases he
  | object tag o => exact absurd rfl (hp _ .refl tag o)

theorem outlet_finished {fuel : Nat} {inside : List ContextId} {c : ContextId}
    (hp : h.Plain (.context c)) (he : ((h.outlet layout fuel inside).context c).error = none) :
    h.WrittenOut layout c ((h.outlet layout fuel inside).context c) := by
  induction fuel generalizing inside c with
  | zero => cases he
  | succ fuel ih =>
    rcases outlet_context h layout fuel inside c with ⟨-, heq⟩ | ⟨-, name, v, e', -, -, heq⟩ |
      ⟨-, -, heq⟩
    · rw [heq] at he
      cases he
    · rw [heq] at he
      cases he
    · rw [heq] at he ⊢
      have hall : ∀ b ∈ (h.context c).vars, ∃ t : Text × Snapshot, b.1 = t.1 ∧
          h.Shows (fun _ => True) b.2 t.2 ∧
          b.2.write layout (h.outlet layout fuel (c :: inside))
            = Piece.writeAll layout t.2.pieces := by
        intro b hb
        obtain ⟨t, hshow, hwrite⟩ := write_finished_of (hp.of_holds (.var hb))
          (fun d hd hed => ih hd hed) (Record.block_done he _ (List.mem_map_of_mem hb))
        exact ⟨(b.1, t), rfl, hshow, hwrite⟩
      obtain ⟨vars, hvars⟩ := forall₂_exists hall
      refine ⟨vars, .context trivial (map_eq_of_forall₂ (hvars.imp fun _ _ h => h.1)) ?_, ?_⟩
      · rw [List.forall₂_map_left_iff, List.forall₂_map_right_iff]
        exact hvars.imp fun _ _ h => h.2.1
      · refine Piece.write_block ?_
        rw [Snapshot.piecesVars_eq, List.forall₂_map_left_iff, List.forall₂_map_right_iff]
        exact hvars.imp fun _ _ h => ⟨h.2.2, by rw [h.1]⟩

/-- **What finishes has been written out**: the value has a snapshot, and its records are what
was put out. -/
theorem write_finished {fuel : Nat} {inside : List ContextId} {v : Value} (hp : h.Plain v)
    (he : (v.write layout (h.outlet layout fuel inside)).error = none) :
    ∃ s, h.Shows (fun _ => True) v s ∧
      v.write layout (h.outlet layout fuel inside) = Piece.writeAll layout s.pieces :=
  write_finished_of hp (fun _ hd hed => outlet_finished hd hed) he

/-- A cycle can be reached from a value. -/
def ReachesCycle (h : Heap) (v : Value) : Prop := ∃ c, h.Reaches v (.context c) ∧ h.Cyclic c

theorem plain_of_writable {v : Value} (hw : ∀ w, h.Reaches v w → w.Writable layout) :
    h.Plain v := by
  rintro w hr tag o rfl
  exact (hw _ hr).elim

/-- **Writing without cycles**: the value has a snapshot, and its bytes are put out. A context
that is held several times is written as often, since the snapshot has it as often. -/
theorem write_acyclic {fuel : Nat} {v : Value} (hf : h.Enough fuel [])
    (hw : ∀ w, h.Reaches v w → w.Writable layout) (hc : ¬ h.ReachesCycle v) :
    ∃ s, h.Shows (fun _ => True) v s ∧
      v.write layout (h.outlet layout fuel []) = ⟨s.bytes layout, none⟩ := by
  have hok : (v.write layout (h.outlet layout fuel [])).error = none := by
    cases he : (v.write layout (h.outlet layout fuel [])).error with
    | none => rfl
    | some e =>
      have hblame := write_failed (inside_nil h) hf (fun d hd => by cases hd) hw he
      exact absurd hblame.2 hc
  obtain ⟨s, hs, hwrite⟩ := write_finished (plain_of_writable hw) hok
  rw [hwrite] at hok
  exact ⟨s, hs, by rw [hwrite, Piece.writeAll_eq hok, Snapshot.bytes]⟩

/-- **Cycles are found**: nothing that reaches one can be written. -/
theorem write_cyclic {fuel : Nat} {inside : List ContextId} {v : Value} (hp : h.Plain v)
    (hc : h.ReachesCycle v) : (v.write layout (h.outlet layout fuel inside)).error ≠ none := by
  intro hok
  obtain ⟨s, hs, -⟩ := write_finished hp hok
  obtain ⟨c, hr, hcycle⟩ := hc
  exact hs.not_cyclic hr hcycle

end Heap

end Reckoner
