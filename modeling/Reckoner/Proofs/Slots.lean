import Mathlib.Tactic
import Reckoner.Proofs.Files
import Reckoner.Proofs.Places
import Reckoner.Proofs.Runs
import Reckoner.Proofs.Splitting
import Reckoner.Storage.Slot

/-!
# Slots find what was stored

Whoever opens a slot finds the bytes that were stored there last: a cell of memory and a row of a
database are replaced in one step, and a finished file is moved to its place. If storing fails, the
bytes are as they were. For files this takes an argument, since the directory for the file may have
been made by then: making directories leaves all files alone, and a file that cannot be put in its
place was not there before.
-/

namespace Reckoner

namespace Disk

variable {d d' : Disk} {loc l : Location} {e : Entry} {path bytes : Text}

/-! ### Making directories -/

/-- Whatever was at a place still is. -/
def Extends (d d' : Disk) : Prop := ∀ loc e, d.at? loc = some e → d'.at? loc = some e

theorem Extends.refl (d : Disk) : d.Extends d := fun _ _ h => h

theorem Extends.trans {d'' : Disk} (h : d.Extends d') (h' : d'.Extends d'') : d.Extends d'' :=
  fun loc e he => h' loc e (h loc e he)

theorem extends_put (hloc : d.at? loc = none) (e : Entry) : d.Extends (d.put loc e) := by
  intro l e' hl
  have hne : l ≠ loc := by
    rintro rfl
    rw [hloc] at hl
    cases hl
  rwa [at?_put_of_ne hne]

theorem makeDir_extends (h : d.makeDir path = .ok d') : d.Extends d' := by
  unfold makeDir at h
  generalize d.resolve _ = resolved at h
  cases resolved with
  | error fault => cases h
  | ok loc =>
    simp only [bind, Except.bind] at h
    split at h
    · cases h
    · next hloc =>
      cases h
      exact extends_put hloc _

/-- A directory is made if it is missing, after those around it, and nothing is taken away. -/
theorem makeDirsWithin_extends {fuel : Nat} (h : d.makeDirsWithin fuel path = .ok d') :
    d.Extends d' := by
  induction fuel generalizing d d' path with
  | zero => cases h
  | succ fuel ih =>
    unfold makeDirsWithin at h
    split at h
    · cases h
      exact .refl d
    · cases h
    · extract_lets around last at h
      have hlast : ∀ d₁ : Disk, d.Extends d₁ → last d₁ = .ok d' → d.Extends d' := by
        intro d₁ hd₁ h
        dsimp only [last] at h
        split at h
        · next hdir =>
          cases h
          exact hd₁.trans (makeDir_extends hdir)
        · split at h
          · cases h
            exact hd₁
          · cases h
      split at h
      · exact hlast d (.refl d) h
      · obtain ⟨d₁, haround, h⟩ := ok_of_bind h
        exact hlast d₁ (ih haround) h

theorem Extends.find (hd : d.Extends d') (hfind : d.find path = .ok e) :
    d'.find path = .ok e := by
  cases hpath : d.resolve path with
  | error fault =>
    rw [Disk.find, hpath] at hfind
    cases hfind
  | ok l =>
    rw [find_of_resolve hpath] at hfind
    rw [find_of_resolve (resolve_mono (fun l => hd l .directory) hpath)]
    cases hl : d.at? l with
    | none =>
      rw [hl] at hfind
      cases hfind
    | some e' =>
      rw [hl] at hfind
      rw [hd l e' hl]
      exact hfind

/-! ### Reading files -/

/-- What can be read is no directory. -/
theorem openFile_ok (hopen : d.openFile path = .ok (.ok bytes)) :
    ∃ e, d.find path = .ok e ∧ e ≠ .directory := by
  unfold openFile at hopen
  split at hopen
  · cases hopen
  · next bytes' hfind => exact ⟨_, hfind, nofun⟩
  · cases hopen
  · next db hfind => exact ⟨_, hfind, nofun⟩

theorem Extends.openFile (hd : d.Extends d') (hopen : d.openFile path = .ok (.ok bytes)) :
    d'.openFile path = .ok (.ok bytes) := by
  obtain ⟨e, hfind, -⟩ := openFile_ok hopen
  rw [Disk.openFile, hfind] at hopen
  rw [Disk.openFile, hd.find hfind]
  exact hopen

/-- A walk whose last part is empty ends at a directory. -/
theorem walk_directory {start : Location} {parts : List Text} (hlast : parts.getLast? = some [])
    (hwalk : d.walk start parts = .ok l) : d.at? l = some .directory := by
  induction parts generalizing start with
  | nil => cases hlast
  | cons part parts ih =>
    rw [walk] at hwalk
    split at hwalk
    · cases hwalk
    · next hstart =>
      cases parts with
      | nil =>
        obtain rfl : part = [] := by simpa using hlast
        cases hwalk
        exact hstart
      | cons part' parts =>
        have hrest : (part' :: parts).getLast? = some [] := by simpa using hlast
        split at hwalk
        · exact ih hrest hwalk
        · split at hwalk
          · exact ih hrest hwalk
          · split at hwalk
            · cases hwalk
            · exact ih hrest hwalk
    · cases hwalk

/-- What can be read can be replaced. -/
theorem fileLocation_of_openFile (hopen : d.openFile path = .ok (.ok bytes)) :
    ∃ loc, d.fileLocation path = .ok loc := by
  obtain ⟨e, hfind, he⟩ := openFile_ok hopen
  cases hpath : d.resolve path with
  | error fault =>
    rw [find, hpath] at hfind
    cases hfind
  | ok l =>
    rw [find_of_resolve hpath] at hfind
    have hl : d.at? l ≠ some .directory := by
      intro hdir
      rw [hdir] at hfind
      cases hfind
      exact he rfl
    refine ⟨l, fileLocation_iff.mpr ⟨fun hslash => hl ?_, hpath, hl⟩⟩
    unfold resolve at hpath
    split at hpath
    · cases hpath
    · split at hpath
      · cases hpath
      · split at hpath
        · cases hpath
        · obtain ⟨front, rfl⟩ := List.getLast?_eq_some_iff.mp hslash
          refine walk_directory ?_ hpath
          exact Text.getLast?_splitAtByte _ front

end Disk

namespace Slot

variable {p : Slot} {s s' : Storage} {bytes : Text}

/-- The slot is a cell of memory, a file, or a row of one of the first `databases` databases, and
none of its steps is made to fail. -/
inductive Real (databases : Nat) : Slot → Prop where
  | memory (cell : Nat) : Real databases (.memory cell)
  | file (path : Text) : Real databases (.file path)
  | row {conn : Connection} (name : Text) : conn.database < databases →
    Real databases (.row conn name)

/-- The bytes that whoever opens the slot can read. -/
def stored? (p : Slot) (s : Storage) : Option Text :=
  match p.openRead s with
  | .ok (.ok bytes) => some bytes
  | _ => none

theorem stored?_eq_some : p.stored? s = some bytes ↔ p.openRead s = .ok (.ok bytes) := by
  unfold stored?
  split
  · next hopen => rw [hopen]; simp
  · next hopen => exact ⟨nofun, fun h => (hopen _ h).elim⟩

/-- Storing in a file: the directory is made, and then the finished file is moved to its place. -/
theorem store_file (path bytes : Text) (s : Storage) : (file path).store bytes s =
    match s.disk.makeDirs (Path.directory path) with
    | .error e => (.error (.creating e), s)
    | .ok disk =>
      match disk.fileLocation path with
      | .ok loc => (.ok (), { s with disk := disk.put loc (.file bytes) })
      | .error _ => (.error (.writing .rename), { s with disk }) := by
  simp only [store, create, writeFault?, commit, bind, Except.bind, pure, Except.pure]
  cases s.disk.makeDirs (Path.directory path) with
  | error e => rfl
  | ok disk =>
    simp only [Disk.moveInto]
    cases disk.fileLocation path <;> rfl

/-- Storing in a row over an open connection replaces it. -/
theorem store_row (conn : Connection) (name bytes : Text) (s : Storage) :
    (∃ e, (row conn name).store bytes s = (.error (.writing e), s)) ∨
      conn.closed = false ∧ (row conn name).store bytes s =
        (.ok (), s.updateRows conn.database fun rows =>
          (name, bytes) :: rows.filter fun (n, _) => n ≠ name) := by
  simp only [store, create, writeFault?, commit, Connection.require, bind, Except.bind]
  cases hclosed : conn.closed with
  | true => exact .inl ⟨_, rfl⟩
  | false =>
    cases bytes with
    | nil => exact .inl ⟨_, rfl⟩
    | cons b rest => exact .inr ⟨rfl, rfl⟩

/-- **Bytes that have been stored are found.** -/
theorem stored_of_ok (hp : p.Real s.databases.size) (h : p.store bytes s = (.ok (), s')) :
    p.stored? s' = some bytes := by
  rw [stored?_eq_some]
  cases hp with
  | memory cell =>
    cases h
    rw [openRead, lookup_putFirst, if_pos rfl]
  | file path =>
    rw [store_file] at h
    split at h
    · cases h
    · split at h
      · next hloc =>
        cases h
        exact Disk.openFile_put hloc bytes
      · cases h
  | @row conn name hdb =>
    obtain ⟨e, hstore⟩ | ⟨hopen, hstore⟩ := store_row conn name bytes s
    · rw [hstore] at h
      cases h
    · rw [hstore] at h
      cases h
      have hrow := (lookup_putFirst (s.rows conn.database) name name bytes).trans (if_pos rfl)
      simp only [openRead, Connection.require, hopen, Storage.rows_updateRows hdb, hrow]
      rfl

/-- **If storing fails, the bytes are as before.** A file that can be read can also be replaced, so
where that fails there was nothing to be read. -/
theorem stored_of_error {fault : StoreFault} (hp : p.Real s.databases.size)
    (h : p.store bytes s = (.error fault, s')) : p.stored? s' = p.stored? s := by
  cases hp with
  | memory cell => cases h
  | file path =>
    rw [store_file] at h
    split at h
    · cases h
      rfl
    · next disk hdirs =>
      have hextends : s.disk.Extends disk := Disk.makeDirsWithin_extends hdirs
      split at h
      · cases h
      · next hloc =>
        cases h
        have hnone : ∀ bytes, disk.openFile path ≠ .ok (.ok bytes) := by
          intro bytes hopen
          obtain ⟨loc, hok⟩ := Disk.fileLocation_of_openFile hopen
          rw [hok] at hloc
          cases hloc
        have hbefore : (file path).stored? s = none :=
          Option.eq_none_iff_forall_ne_some.mpr fun bytes hbytes =>
            hnone bytes (hextends.openFile (stored?_eq_some.mp hbytes))
        have hafter : (file path).stored? { s with disk } = none :=
          Option.eq_none_iff_forall_ne_some.mpr fun bytes hbytes =>
            hnone bytes (stored?_eq_some.mp hbytes)
        rw [hbefore, hafter]
  | @row conn name hdb =>
    obtain ⟨e, hstore⟩ | ⟨-, hstore⟩ := store_row conn name bytes s
    · rw [hstore] at h
      cases h
      rfl
    · rw [hstore] at h
      cases h

end Slot

end Reckoner
