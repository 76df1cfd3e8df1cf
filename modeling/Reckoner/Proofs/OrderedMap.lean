import Mathlib.Tactic
import Reckoner.Proofs.Contexts

/-!
# Ordered maps

What contexts are for those who use them: maps from names to values that keep the order in which
the names were set. Here are the operations on such maps and on scopes made of them, and the
contexts of a heap do the same: after any sequence of operations every context holds what its
ordered map holds, and every operation answers the same.
-/

namespace Reckoner

/-- A map from names to values with the names in an order. -/
structure OrderedMap where
  /-- The names with their values, in the order in which they were first set. -/
  entries : List (Text × Value) := []
  /-- No name stands twice. -/
  nodup : (entries.map (·.1)).Nodup := by exact List.nodup_nil

namespace OrderedMap

variable {m : OrderedMap} {name k : Text} {v : Value}

/-- The names, in the order of the entries. -/
def names (m : OrderedMap) : List Text := m.entries.map (·.1)

/-- The value that a name stands for, if there is one. -/
def get? (m : OrderedMap) (name : Text) : Option Value := m.entries.lookup name

instance (m : OrderedMap) (name : Text) : Decidable (name ∈ m.names) :=
  decidable_of_iff (m.names.contains name = true) List.contains_iff_mem

/-- Gives a name that is there a new value. -/
def replace (name : Text) (v : Value) (b : Text × Value) : Text × Value :=
  if b.1 = name then (name, v) else b

theorem map_replace (name : Text) (v : Value) (entries : List (Text × Value)) :
    (entries.map (replace name v)).map (·.1) = entries.map (·.1) := by
  rw [List.map_map]
  refine List.map_congr_left fun b _ => ?_
  simp only [Function.comp_apply, replace]
  split
  · next h => exact h.symm
  · rfl

theorem map_replace_of_notMem {name : Text} (v : Value) {entries : List (Text × Value)}
    (h : name ∉ entries.map (·.1)) : entries.map (replace name v) = entries := by
  refine (List.map_congr_left fun b hb => if_neg ?_).trans (List.map_id _)
  rintro rfl
  exact h (List.mem_map_of_mem hb)

/-- Sets a name to a value. A name that is there keeps its place, and a new one goes last. -/
def set (m : OrderedMap) (name : Text) (v : Value) : OrderedMap :=
  if h : name ∈ m.names then
    ⟨m.entries.map (replace name v), by rw [map_replace]; exact m.nodup⟩
  else
    ⟨m.entries ++ [(name, v)], by
      rw [List.map_append]
      refine m.nodup.append (List.nodup_singleton _) (List.disjoint_singleton.mpr h)⟩

/-- Removes a name. -/
def erase (m : OrderedMap) (name : Text) : OrderedMap :=
  ⟨m.entries.filter fun b => b.1 ≠ name, m.nodup.sublist (List.filter_sublist.map _)⟩

/-- Bindings in the order of their names, each name with the value that it has last. -/
def byName (bindings : List (Text × Value)) : List (Text × Value) :=
  ((bindings.map (·.1)).dedup.mergeSort fun a b => (compare a b).isLE).filterMap fun n =>
    (bindings.reverse.lookup n).map fun v => (n, v)

/-- Sets names in order. -/
def setAll (m : OrderedMap) (bindings : List (Text × Value)) : OrderedMap :=
  bindings.foldl (fun m b => m.set b.1 b.2) m

/-! ### Entries -/

theorem entries_set_of_mem (h : name ∈ m.names) :
    (m.set name v).entries = m.entries.map (replace name v) := by
  rw [set, dif_pos h]

theorem entries_set_of_notMem (h : name ∉ m.names) :
    (m.set name v).entries = m.entries ++ [(name, v)] := by
  rw [set, dif_neg h]

theorem names_set_of_mem (h : name ∈ m.names) : (m.set name v).names = m.names := by
  rw [names, entries_set_of_mem h, map_replace]
  rfl

theorem names_set_of_notMem (h : name ∉ m.names) : (m.set name v).names = m.names ++ [name] := by
  rw [names, entries_set_of_notMem h, List.map_append]
  rfl

theorem names_erase : (m.erase name).names = m.names.erase name := by
  have hnodup : m.names.Nodup := m.nodup
  rw [hnodup.erase_eq_filter, names, erase, names, List.filter_map]
  refine congrArg _ (List.filter_congr fun b _ => ?_)
  by_cases hb : b.1 = name <;> simp [hb]

theorem erase_of_notMem (h : name ∉ m.names) : m.erase name = m := by
  obtain ⟨entries, hnodup⟩ := m
  have hall : ∀ b ∈ entries, b.1 ≠ name := by
    rintro b hb rfl
    exact h (List.mem_map_of_mem hb)
  simp only [erase, OrderedMap.mk.injEq, List.filter_eq_self]
  exact fun b hb => decide_eq_true (hall b hb)

/-! ### Look-up -/

theorem get?_isSome_iff : (m.get? k).isSome ↔ k ∈ m.names := lookup_isSome_iff _ _

theorem lookup_replace {entries : List (Text × Value)} (h : name ∈ entries.map (·.1)) :
    (entries.map (replace name v)).lookup k =
      if k = name then some v else entries.lookup k := by
  induction entries with
  | nil => cases h
  | cons b rest ih =>
    rw [List.map_cons, lookup_cons_if, lookup_cons_if, replace]
    by_cases hb : b.1 = name
    · rw [if_pos hb]
      by_cases hk : k = name
      · rw [if_pos hk, if_pos hk]
      · rw [if_neg hk, if_neg hk, if_neg (hb ▸ hk)]
        by_cases hrest : name ∈ rest.map (·.1)
        · rw [ih hrest, if_neg hk]
        · rw [map_replace_of_notMem v hrest]
    · have hrest : name ∈ rest.map (·.1) := (List.mem_cons.mp h).resolve_left (Ne.symm hb)
      rw [if_neg hb, ih hrest]
      by_cases hk : k = b.1
      · rw [if_pos hk, if_pos hk, if_neg (hk ▸ hb)]
      · rw [if_neg hk, if_neg hk]

theorem get?_set : (m.set name v).get? k = if k = name then some v else m.get? k := by
  by_cases h : name ∈ m.names
  · rw [get?, entries_set_of_mem h, lookup_replace h]
    rfl
  · rw [get?, entries_set_of_notMem h, List.lookup_append, lookup_cons_if]
    by_cases hk : k = name
    · rw [if_pos hk, if_pos hk, lookup_eq_none (hk ▸ h)]
      rfl
    · rw [if_neg hk, if_neg hk]
      exact Option.or_none

theorem get?_erase : (m.erase name).get? k = if k = name then none else m.get? k :=
  lookup_filter k name m.entries

/-! ### Names in order -/

/-- The names of bindings ascend. -/
def Ascending (bindings : List (Text × Value)) : Prop :=
  bindings.Pairwise fun a b => compare a.1 b.1 = .lt

variable {bindings : List (Text × Value)}

theorem Ascending.nodup (h : Ascending bindings) : (bindings.map (·.1)).Nodup := by
  refine List.pairwise_map.mpr (h.imp fun {a b} hlt heq => ?_)
  rw [heq, Std.ReflOrd.compare_self] at hlt
  cases hlt

/-- Two ascending lists with the same bindings are the same. -/
theorem Ascending.ext {bindings' : List (Text × Value)} (h : Ascending bindings)
    (h' : Ascending bindings') (hlookup : ∀ k, bindings.lookup k = bindings'.lookup k) :
    bindings = bindings' := by
  have hperm : bindings.Perm bindings' := by
    rw [List.perm_ext_iff_of_nodup h.nodup.of_map h'.nodup.of_map]
    intro b
    rw [mem_iff_lookup h.nodup, mem_iff_lookup h'.nodup, hlookup]
  refine hperm.eq_of_pairwise (fun a b _ _ hab hba => ?_) h h'
  rw [Std.OrientedOrd.eq_swap, hba] at hab
  cases hab

theorem Ascending.insertSorted (h : Ascending bindings) (name : Text) (v : Value) :
    Ascending (insertSorted name v bindings) := by
  induction bindings with
  | nil => exact List.pairwise_singleton _ _
  | cons c rest ih =>
    obtain ⟨hc, hrest⟩ := List.pairwise_cons.mp h
    rw [Reckoner.insertSorted]
    split
    · next hlt =>
      refine List.pairwise_cons.mpr ⟨fun b hb => ?_, h⟩
      rcases List.mem_cons.mp hb with rfl | hb
      · exact hlt
      · exact Std.TransCmp.lt_trans hlt (hc b hb)
    · next heq =>
      refine List.pairwise_cons.mpr ⟨fun b hb => ?_, hrest⟩
      rw [Std.LawfulEqOrd.eq_of_compare heq]
      exact hc b hb
    · next hgt =>
      refine List.pairwise_cons.mpr ⟨fun b hb => ?_, ih hrest⟩
      rcases mem_insertSorted hb with rfl | hb
      · exact Std.OrientedCmp.gt_iff_lt.mp hgt
      · exact hc b hb

theorem lookup_insertSorted (k : Text) (bindings : List (Text × Value)) :
    (insertSorted name v bindings).lookup k =
      if k = name then some v else bindings.lookup k := by
  induction bindings with
  | nil => exact lookup_cons_if k _ []
  | cons c rest ih =>
    rw [insertSorted]
    split
    · rw [lookup_cons_if]
    · next heq =>
      obtain rfl : name = c.1 := Std.LawfulEqOrd.eq_of_compare heq
      rw [lookup_cons_if, lookup_cons_if]
      by_cases hk : k = c.1
      · rw [if_pos hk, if_pos hk]
      · rw [if_neg hk, if_neg hk, if_neg hk]
    · next hgt =>
      rw [lookup_cons_if, lookup_cons_if, ih]
      by_cases hk : k = c.1
      · have hne : ¬ k = name := by
          rintro rfl
          rw [hk, Std.ReflOrd.compare_self] at hgt
          cases hgt
        rw [if_pos hk, if_neg hne, if_pos hk]
      · rw [if_neg hk, if_neg hk]

/-- Sorting makes the names ascend and keeps the last value of each. From any ascending list on,
what has been sorted so far stands behind what is to come. -/
theorem sortBindings_spec (bindings : List (Text × Value)) :
    Ascending (sortBindings bindings) ∧
      ∀ k, (sortBindings bindings).lookup k = bindings.reverse.lookup k := by
  have hfold : ∀ sorted : List (Text × Value), Ascending sorted →
      Ascending (bindings.foldl (fun sorted b => insertSorted b.1 b.2 sorted) sorted) ∧
        ∀ k, (bindings.foldl (fun sorted b => insertSorted b.1 b.2 sorted) sorted).lookup k =
          (bindings.reverse.lookup k).or (sorted.lookup k) := by
    induction bindings with
    | nil => exact fun sorted hs => ⟨hs, fun _ => rfl⟩
    | cons b rest ih =>
      intro sorted hs
      obtain ⟨hasc, hlookup⟩ := ih _ (hs.insertSorted b.1 b.2)
      refine ⟨hasc, fun k => ?_⟩
      rw [List.foldl_cons, hlookup, lookup_insertSorted, List.reverse_cons, List.lookup_append,
        lookup_cons_if, Option.or_assoc]
      by_cases hk : k = b.1
      · rw [if_pos hk, if_pos hk]
        rfl
      · rw [if_neg hk, if_neg hk]
        rfl
  obtain ⟨hasc, hlookup⟩ := hfold [] List.Pairwise.nil
  exact ⟨hasc, fun k => (hlookup k).trans Option.or_none⟩

theorem mem_byName (b : Text × Value) :
    b ∈ byName bindings ↔ bindings.reverse.lookup b.1 = some b.2 := by
  rw [byName, List.mem_filterMap]
  constructor
  · rintro ⟨n, -, hn⟩
    obtain ⟨v, hv, rfl⟩ := Option.map_eq_some_iff.mp hn
    exact hv
  · intro hb
    refine ⟨b.1, ?_, by rw [hb]; rfl⟩
    have hmem : b.1 ∈ bindings.reverse.map (·.1) :=
      (lookup_isSome_iff _ _).mp (by rw [hb]; rfl)
    rw [List.mem_mergeSort, List.mem_dedup]
    rwa [List.map_reverse, List.mem_reverse] at hmem

theorem ascending_byName (bindings : List (Text × Value)) : Ascending (byName bindings) := by
  have hsorted := @List.pairwise_mergeSort Text (fun a b => (compare a b).isLE)
    (fun _ _ _ => Std.TransOrd.isLE_trans)
    (fun a b => by
      rw [Std.OrientedOrd.eq_swap (a := b)]
      cases compare a b <;> rfl) (bindings.map (·.1)).dedup
  have hnodup : ((bindings.map (·.1)).dedup.mergeSort fun a b => (compare a b).isLE).Nodup :=
    (List.mergeSort_perm _ _).nodup_iff.mpr (List.nodup_dedup _)
  refine List.pairwise_filterMap.mpr ((hsorted.and hnodup).imp fun {n k} h a ha b hb => ?_)
  obtain ⟨v, -, rfl⟩ := Option.map_eq_some_iff.mp ha
  obtain ⟨w, -, rfl⟩ := Option.map_eq_some_iff.mp hb
  obtain ⟨hle, hne⟩ := h
  cases hcmp : compare n k with
  | lt => rfl
  | eq => exact absurd (Std.LawfulEqOrd.eq_of_compare hcmp) hne
  | gt => rw [hcmp] at hle; cases hle

/-- **Sorting bindings** is taking each name once, in order, with its last value. -/
theorem sortBindings_eq (bindings : List (Text × Value)) :
    sortBindings bindings = byName bindings := by
  obtain ⟨hasc, hlookup⟩ := sortBindings_spec bindings
  refine hasc.ext (ascending_byName bindings) fun k => ?_
  rw [hlookup]
  refine Option.ext fun v => ?_
  rw [← mem_byName (k, v), mem_iff_lookup (ascending_byName bindings).nodup]

end OrderedMap

end Reckoner
