import Mathlib.Tactic
import Reckoner.Heap

/-!
# Looking names up

A list of bindings as a map: looking up a key finds the first binding of it.
-/

namespace Reckoner

section

variable {κ α : Type} [BEq κ] [LawfulBEq κ]

theorem mem_of_lookup {entries : List (κ × α)} {name : κ} {a : α}
    (h : entries.lookup name = some a) : (name, a) ∈ entries := by
  obtain ⟨before, after, rfl, -⟩ := List.lookup_eq_some_iff.mp h
  simp

variable [DecidableEq κ]

theorem lookup_cons_if (k : κ) (b : κ × α) (rest : List (κ × α)) :
    List.lookup k (b :: rest) = if k = b.1 then some b.2 else rest.lookup k := by
  rw [List.lookup_cons]
  by_cases hk : k = b.1
  · rw [if_pos hk, beq_iff_eq.mpr hk]
  · rw [if_neg hk, beq_eq_false_iff_ne.mpr hk]

theorem lookup_isSome_iff (k : κ) (entries : List (κ × α)) :
    (entries.lookup k).isSome ↔ k ∈ entries.map (·.1) := by
  induction entries with
  | nil => simp
  | cons b rest ih =>
    rw [lookup_cons_if, List.map_cons, List.mem_cons, ← ih]
    by_cases hk : k = b.1
    · simp [hk]
    · rw [if_neg hk, or_iff_right hk]

theorem lookup_eq_none {k : κ} {entries : List (κ × α)}
    (h : k ∉ entries.map (·.1)) : entries.lookup k = none := by
  rw [← Option.not_isSome_iff_eq_none, lookup_isSome_iff]
  exact h

/-- A binding is what look-up finds if the names differ. -/
theorem mem_iff_lookup {entries : List (κ × α)}
    (hnodup : (entries.map (·.1)).Nodup) (b : κ × α) :
    b ∈ entries ↔ entries.lookup b.1 = some b.2 := by
  induction entries with
  | nil => simp
  | cons c rest ih =>
    obtain ⟨hc, hrest⟩ := List.nodup_cons.mp hnodup
    rw [lookup_cons_if, List.mem_cons, ih hrest]
    by_cases hk : b.1 = c.1
    · have hnone : rest.lookup b.1 = none := lookup_eq_none (hk ▸ hc)
      rw [if_pos hk, hnone, Option.some_inj]
      exact ⟨fun h => h.elim (fun h => by rw [h]) nofun, fun h => .inl (Prod.ext hk h.symm)⟩
    · rw [if_neg hk]
      exact ⟨fun h => h.resolve_left fun h => hk (by rw [h]), .inr⟩

theorem lookup_filter (k name : κ) (entries : List (κ × α)) :
    (entries.filter fun b => b.1 ≠ name).lookup k =
      if k = name then none else entries.lookup k := by
  induction entries with
  | nil => simp
  | cons b rest ih =>
    rw [lookup_cons_if]
    by_cases hb : b.1 = name
    · rw [List.filter_cons_of_neg (by simpa using hb), ih]
      by_cases hk : k = name
      · rw [if_pos hk, if_pos hk]
      · rw [if_neg hk, if_neg hk, if_neg (hb ▸ hk)]
    · rw [List.filter_cons_of_pos (by simpa using hb), lookup_cons_if, ih]
      by_cases hk : k = b.1
      · rw [if_pos hk, if_pos hk, if_neg (hk ▸ hb)]
      · rw [if_neg hk, if_neg hk]

/-- A binding that is put in front of those of all other keys. -/
theorem lookup_putFirst (entries : List (κ × α)) (k name : κ) (a : α) :
    ((name, a) :: entries.filter fun b => b.1 ≠ name).lookup k =
      if k = name then some a else entries.lookup k := by
  rw [lookup_cons_if, lookup_filter]
  by_cases hk : k = name
  · rw [if_pos hk, if_pos hk]
  · rw [if_neg hk, if_neg hk, if_neg hk]

end

theorem mem_insertSorted {α : Type} {bindings : List (Text × α)} {name : Text} {v : α}
    {b : Text × α} (hb : b ∈ insertSorted name v bindings) : b = (name, v) ∨ b ∈ bindings := by
  induction bindings with
  | nil => exact .inl (List.mem_singleton.mp hb)
  | cons c rest ih =>
    rw [insertSorted] at hb
    split at hb
    · exact List.mem_cons.mp hb
    · exact (List.mem_cons.mp hb).imp_right (List.mem_cons_of_mem c)
    · rcases List.mem_cons.mp hb with rfl | hb
      · exact .inr List.mem_cons_self
      · exact (ih hb).imp_right (List.mem_cons_of_mem c)

end Reckoner
