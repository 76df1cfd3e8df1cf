import Mathlib.Tactic
import Reckoner.Proofs.Lookup
import Reckoner.Storage.Disk

/-!
# Files on a disk

A file that is written is found again under the path that it was written to, and under every path
to another place there is what was there before. Writing a file never puts it in the place of a
directory, so every path leads where it led before.
-/

namespace Reckoner

namespace Disk

variable {d d' : Disk} {loc l : Location} {e : Entry} {path : Text}

/-! ### Entries -/

/-- Places that always have a directory. -/
def Fixed (loc : Location) : Prop := (loc = root || loc.all (· = Path.up)) = true

theorem at?_fixed (hloc : Fixed loc) : d.at? loc = some .directory := if_pos hloc

theorem at?_put_self (hloc : ¬ Fixed loc) : (d.put loc e).at? loc = some e := by
  refine (if_neg hloc).trans ?_
  exact (lookup_putFirst d.entries loc loc e).trans (if_pos rfl)

theorem at?_put_of_ne (hne : l ≠ loc) : (d.put loc e).at? l = d.at? l := by
  unfold at?
  split
  · rfl
  · exact (lookup_putFirst d.entries l loc e).trans (if_neg hne)

/-- Only the last change at a place matters. -/
theorem put_put (d : Disk) (loc : Location) (e e' : Entry) :
    (d.put loc e).put loc e' = d.put loc e' := by
  simp [put]

/-! ### Paths -/

/-- A walk only passes directories, so where these stay it leads to the same place. -/
theorem walk_mono (hdirs : ∀ l, d.at? l = some .directory → d'.at? l = some .directory)
    {start l : Location} {parts : List Text} (hwalk : d.walk start parts = .ok l) :
    d'.walk start parts = .ok l := by
  induction parts generalizing start with
  | nil => exact hwalk
  | cons part parts ih =>
    rw [walk] at hwalk ⊢
    by_cases hstart : d.at? start = some .directory
    · rw [hstart] at hwalk
      rw [hdirs start hstart]
      dsimp only at hwalk ⊢
      split at hwalk
      · next hpart => rw [if_pos hpart, ih hwalk]
      · next hpart =>
        rw [if_neg hpart]
        split at hwalk
        · next hup => rw [if_pos hup, ih hwalk]
        · next hup =>
          rw [if_neg hup]
          split at hwalk
          · cases hwalk
          · next hlong => rw [if_neg hlong, ih hwalk]
    · split at hwalk
      · cases hwalk
      · next hdir => exact absurd hdir hstart
      · cases hwalk

theorem resolve_mono (hdirs : ∀ l, d.at? l = some .directory → d'.at? l = some .directory)
    (hpath : d.resolve path = .ok l) : d'.resolve path = .ok l := by
  unfold resolve at hpath ⊢
  split at hpath
  · cases hpath
  · next hzero =>
    rw [if_neg hzero]
    split at hpath
    · cases hpath
    · next hempty =>
      rw [if_neg hempty]
      split at hpath
      · cases hpath
      · next hlong =>
        rw [if_neg hlong]
        exact walk_mono hdirs hpath

/-- What is in the place of something else than a directory does not matter. -/
theorem resolve_put (hloc : d.at? loc ≠ some .directory) (hpath : d.resolve path = .ok l) :
    (d.put loc e).resolve path = .ok l := by
  refine resolve_mono (fun l hl => ?_) hpath
  have hne : l ≠ loc := fun heq => hloc (heq ▸ hl)
  rwa [at?_put_of_ne hne]

theorem find_of_resolve (hpath : d.resolve path = .ok l) : d.find path = match d.at? l with
    | some e => .ok e
    | none => .error .noEntry := by
  rw [find, hpath]
  simp only [bind, Except.bind]
  cases d.at? l <;> rfl

/-! ### Files -/

theorem trimSlashes_of_last (hlast : path.getLast? ≠ some Path.slash) :
    Path.trimSlashes path = path := by
  have hdrop : path.reverse.dropWhile (· = Path.slash) = path.reverse := by
    rw [← List.head?_reverse] at hlast
    cases hreverse : path.reverse with
    | nil => rfl
    | cons b rest =>
      rw [hreverse] at hlast
      exact List.dropWhile_cons_of_neg (by simpa using hlast)
  rw [Path.trimSlashes, hdrop, List.reverse_reverse]

/-- A file is created where its path leads, and not in the place of a directory. -/
theorem fileLocation_iff : d.fileLocation path = .ok loc ↔
    path.getLast? ≠ some Path.slash ∧ d.resolve path = .ok loc ∧
      d.at? loc ≠ some .directory := by
  unfold fileLocation
  by_cases hlast : path.getLast? = some Path.slash
  · refine ⟨fun h => ?_, fun h => absurd hlast h.1⟩
    simp only [if_pos hlast] at h
    generalize d.resolve _ = x at h
    cases x <;> cases h
  · rw [trimSlashes_of_last hlast, ite_self]
    simp only [if_neg hlast]
    cases hpath : d.resolve path with
    | error e => exact ⟨nofun, fun h => nomatch h.2.1⟩
    | ok l =>
      simp only [bind, Except.bind]
      split
      · next hdir =>
        refine ⟨nofun, fun ⟨_, hl, hloc⟩ => ?_⟩
        cases hl
        exact absurd hdir hloc
      · next hdir =>
        refine ⟨fun h => ?_, fun ⟨_, hl, _⟩ => hl⟩
        cases h
        exact ⟨hlast, rfl, hdir⟩

/-- What is created at a place can be created there again. -/
theorem fileLocation_put (hpath : d.fileLocation path = .ok loc) (bytes : Text) :
    (d.put loc (.file bytes)).fileLocation path = .ok loc := by
  obtain ⟨hlast, hresolve, hloc⟩ := fileLocation_iff.mp hpath
  have hfixed : ¬ Fixed loc := fun h => hloc (at?_fixed h)
  refine fileLocation_iff.mpr ⟨hlast, resolve_put hloc hresolve, ?_⟩
  rw [at?_put_self hfixed]
  nofun

/-- **What is written is read under the path that it was written to.** -/
theorem openFile_put (hpath : d.fileLocation path = .ok loc) (bytes : Text) :
    (d.put loc (.file bytes)).openFile path = .ok (.ok bytes) := by
  obtain ⟨-, hresolve, hloc⟩ := fileLocation_iff.mp hpath
  rw [openFile, find_of_resolve (resolve_put hloc hresolve),
    at?_put_self fun h => hloc (at?_fixed h)]

/-- **What can be read at another place stays.** -/
theorem openFile_put_of_ne (hloc : d.at? loc ≠ some .directory) {content : Content}
    (hopen : d.openFile path = .ok content) (hne : d.resolve path ≠ .ok loc) (e : Entry) :
    (d.put loc e).openFile path = .ok content := by
  cases hpath : d.resolve path with
  | error fault =>
    rw [openFile, find, hpath] at hopen
    cases hopen
  | ok l =>
    have hl : l ≠ loc := fun h => hne (h ▸ hpath)
    rw [openFile, find_of_resolve (resolve_put hloc hpath), at?_put_of_ne hl]
    rw [openFile, find_of_resolve hpath] at hopen
    exact hopen

theorem writeFile_eq (hpath : d.fileLocation path = .ok loc) (bytes : Text) :
    d.writeFile path bytes = .ok (d.put loc (.file bytes)) := by
  rw [writeFile, hpath]

end Disk

end Reckoner
