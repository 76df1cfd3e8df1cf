import Mathlib.Tactic
import Reckoner.Proofs.Conversion
import Reckoner.Proofs.GlobalSteps

/-!
# Storing what is left of a stored map

A map that was read from a stream is stored again without some of its names. In the layout that it
was read from, what is left is read back as it is. Another layout keeps everything but points in
time, of which the lines hold fewer, so there these are asked for.
-/

namespace Reckoner

/-! ### From one layout to another -/

namespace Snapshot

/-- The point in time is somewhere in the snapshot. -/
inductive Dated (t : DateTime) : Snapshot → Prop where
  /-- It is the snapshot itself. -/
  | leaf : Dated t (.leaf (.dateTime t))
  /-- It is in a part of the snapshot. -/
  | part {s u : Snapshot} : u ∈ s.parts → Dated t u → Dated t s

/-- Where all but points in time is kept, all is kept if these are. -/
theorem Built.kept_of_dates {layout : Layout} {s : Snapshot}
    (hs : s.Built fun a => a.Kept layout ∨ ∃ t, a = .dateTime t)
    (hdates : ∀ t, s.Dated t → t.Kept layout) : s.Kept layout := by
  induction hs with
  | leaf ha =>
    rcases ha with ha | ⟨t, rfl⟩
    · exact .leaf ha
    · exact .leaf (hdates t .leaf)
  | array hnamed hne hlen hkind _ ih =>
    exact .array hnamed hne hlen hkind fun u hu => ih u hu fun t ht => hdates t (.part hu ht)
  | list hlen _ ih => exact .list hlen fun u hu => ih u hu fun t ht => hdates t (.part hu ht)
  | context hlen hnodup hbrief _ ih =>
    exact .context hlen hnodup hbrief fun b hb =>
      ih b hb fun t ht => hdates t (.part (List.mem_map_of_mem hb) ht)

/-- What one layout kept is kept by another one, if its points in time are. -/
theorem Kept.again {layout layout' : Layout} {s : Snapshot} (hs : s.Kept layout)
    (hdates : ∀ t, (s.normal layout).Dated t → t.Kept layout') :
    (s.normal layout).Kept layout' := by
  refine Built.kept_of_dates (Built.normal hs fun a ha => ?_) hdates
  cases a with
  | dateTime t => exact .inr ⟨_, rfl⟩
  | vector xs => exact .inl (by simpa [Leaf.Kept, Leaf.normal, Leaf.Storable] using ha)
  | pointVector ps => exact .inl (by simpa [Leaf.Kept, Leaf.normal, Leaf.Storable] using ha)
  | matrix m => exact .inl (by simpa [Leaf.Kept, Leaf.normal, Leaf.Storable] using ha)
  | _ => exact .inl ha

end Snapshot

namespace StoredMap

variable {m vars : StoredMap} {bytes : Option Text} {layout : Layout} {mode : Mode}

/-! ### Maps with fewer names -/

theorem without_normal (m : StoredMap) (layout : Layout) (names : List Text) :
    (m.normal layout).without names = (m.without names).normal layout := by
  unfold without
  split
  · rfl
  · rw [normal, normal, List.filter_map]
    rfl

theorem kept_nil (layout : Layout) : (Snapshot.context []).Kept layout :=
  .context (by decide) List.nodup_nil nofun nofun

theorem kept_without (hvars : (Snapshot.context vars).Kept layout) (names : List Text) :
    (Snapshot.context (vars.without names)).Kept layout := by
  obtain (_ | _ | _ | ⟨hlen, hnodup, hbrief, hall⟩) := hvars
  have hsub := sublist_without vars names
  exact .context (hsub.length_le.trans_lt hlen) (hnodup.sublist (hsub.map _))
    (fun b hb => hbrief b (hsub.subset hb)) fun b hb => hall b (hsub.subset hb)

/-! ### Maps that are stored again -/

/-- The bytes, if there are any, are the stream of a context that the layout keeps, and from which
it gives the map back. -/
inductive HeldAs (m : StoredMap) (layout : Layout) : Option Text → Prop where
  | nothing : m = [] → HeldAs m layout none
  /-- The stream holds a context that its layout keeps. -/
  | stream {mode : Mode} {vars : StoredMap} : mode ∈ Mode.named → mode.layout = layout →
    (Snapshot.context vars).Kept layout → m = vars.normal layout →
    HeldAs m layout (some (Stream.assemble mode Stream.defaultName
      ((Snapshot.context vars).bytes layout)))

theorem HeldAs.held (hm : m.HeldAs layout bytes) : m.HeldIn bytes := by
  cases hm with
  | nothing hnil => exact .nothing hnil
  | stream hmode hlayout hvars heq =>
    subst hlayout
    exact .stream hmode hvars heq

/-- **What is left is held as it is** by a stream in the layout that the map was held in. -/
theorem HeldAs.without (hm : m.HeldAs mode.layout bytes) (hmode : mode ∈ Mode.named)
    (names : List Text) : (m.without names).HeldAs mode.layout
      (some (Stream.assemble mode Stream.defaultName
        ((Snapshot.context (m.without names)).bytes mode.layout))) := by
  obtain ⟨vars, hvars, rfl⟩ : ∃ vars : StoredMap,
      (Snapshot.context vars).Kept mode.layout ∧ m = vars.normal mode.layout := by
    cases hm with
    | nothing hnil => exact ⟨[], kept_nil _, hnil⟩
    | stream _ _ hvars heq => exact ⟨_, hvars, heq⟩
  rw [without_normal, ← context_normal, Snapshot.bytes_normal]
  exact .stream hmode rfl (kept_without hvars names) rfl

/-- **What is left is held by a stream in any layout** that keeps its points in time. -/
theorem HeldAs.without_dated (hm : m.HeldAs layout bytes) (hmode : mode ∈ Mode.named)
    {names : List Text}
    (hdates : ∀ t, (Snapshot.context (m.without names)).Dated t → t.Kept mode.layout) :
    HeldAs ((m.without names).normal mode.layout) mode.layout
      (some (Stream.assemble mode Stream.defaultName
        ((Snapshot.context (m.without names)).bytes mode.layout))) := by
  refine .stream hmode rfl ?_ rfl
  cases hm with
  | nothing hnil =>
    subst hnil
    exact kept_without (kept_nil _) names
  | stream _ _ hvars heq =>
    subst heq
    rw [without_normal, ← context_normal] at hdates ⊢
    exact (kept_without hvars names).again hdates

end StoredMap

end Reckoner
