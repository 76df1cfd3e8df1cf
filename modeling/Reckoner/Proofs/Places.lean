import Reckoner.Proofs.Lookup
import Reckoner.Storage.Slot

/-!
# Places that bytes are kept in

A slot that is a cell of memory or a row of a database keeps its bytes at a place of its own.
Storing replaces the bytes there in one step and touches no other place; if it fails, nothing has
changed.
-/

namespace Reckoner

/-- A cell of memory or a row of a database. -/
inductive Place where
  /-- A cell of memory. -/
  | cell (n : Nat)
  /-- A row of a database. -/
  | row (db : DatabaseId) (name : Text)
  deriving DecidableEq, Repr

namespace Storage

/-- The bytes at a place, if there are any. -/
def bytes? (s : Storage) : Place → Option Text
  | .cell n => s.cells.lookup n
  | .row db name => (s.rows db).lookup name

/-- Nothing but the bytes at the place differs. -/
structure ChangesOnly (s s' : Storage) (place : Place) : Prop where
  /-- The bytes at other places are as they were. -/
  others : ∀ q, q ≠ place → s'.bytes? q = s.bytes? q
  /-- There are as many databases as before. -/
  databases : s'.databases.size = s.databases.size

theorem ChangesOnly.refl (s : Storage) (place : Place) : s.ChangesOnly s place :=
  ⟨fun _ _ => rfl, rfl⟩

theorem rows_updateRows {s : Storage} {db : DatabaseId} (hdb : db < s.databases.size)
    (f : List (Text × Text) → List (Text × Text)) :
    (s.updateRows db f).rows db = f (s.rows db) := by
  simp only [rows, updateRows, Array.getElem?_modify, if_pos, Array.getElem?_eq_getElem hdb]
  rfl

theorem rows_updateRows_of_ne {s : Storage} {db db' : DatabaseId} (hne : db' ≠ db)
    (f : List (Text × Text) → List (Text × Text)) : (s.updateRows db f).rows db' = s.rows db' := by
  simp [rows, updateRows, Array.getElem?_modify, hne.symm]

end Storage

/-- The slot keeps its bytes at the place: it is a cell of memory, or a row of one of the first
`databases` databases over a connection that is open. -/
inductive Slot.KeepsAt (databases : Nat) : Slot → Place → Prop where
  /-- A slot in memory keeps its bytes in its cell. -/
  | memory (n : Nat) : KeepsAt databases (.memory n) (.cell n)
  /-- A slot in a database keeps them in its row. -/
  | row {db : DatabaseId} (name : Text) : db < databases →
    KeepsAt databases (.row ⟨db, false⟩ name) (.row db name)

namespace Slot

variable {p : Slot} {place : Place} {s : Storage} {bytes : Text}

theorem KeepsAt.openRead_some (hp : p.KeepsAt s.databases.size place)
    (hbytes : s.bytes? place = some bytes) : p.openRead s = .ok (.ok bytes) := by
  cases hp with
  | memory n =>
    have hcell : s.cells.lookup n = some bytes := hbytes
    rw [openRead, hcell]
  | @row db name hdb =>
    have hrow : (s.rows db).lookup name = some bytes := hbytes
    simp only [openRead, hrow]
    rfl

/-- Where there are no bytes, opening says so. -/
theorem KeepsAt.openRead_none (hp : p.KeepsAt s.databases.size place)
    (hbytes : s.bytes? place = none) : ∃ e, p.openRead s = .error e ∧ e.isMissing = true := by
  cases hp with
  | memory n =>
    have hcell : s.cells.lookup n = none := hbytes
    exact ⟨.missing none, by rw [openRead, hcell], rfl⟩
  | @row db name hdb =>
    have hrow : (s.rows db).lookup name = none := hbytes
    refine ⟨.missing (some name), ?_, rfl⟩
    simp only [openRead, hrow]
    rfl

/-- **Storing replaces the bytes of one place**, or fails and changes nothing; bytes are always
stored if there are any. -/
theorem KeepsAt.store (hp : p.KeepsAt s.databases.size place) (bytes : Text) :
    (∃ s', p.store bytes s = (.ok (), s') ∧ s'.bytes? place = some bytes ∧ s.ChangesOnly s' place) ∨
      bytes = [] ∧ ∃ e, p.store bytes s = (.error (.writing e), s) := by
  cases hp with
  | memory n =>
    refine .inl ⟨_, rfl, ?_, ?_, rfl⟩
    · exact (lookup_putFirst s.cells n n bytes).trans (if_pos rfl)
    · intro q hq
      cases q with
      | row db name => rfl
      | cell k =>
        have hk : k ≠ n := fun h => hq (congrArg Place.cell h)
        exact (lookup_putFirst s.cells k n bytes).trans (if_neg hk)
  | @row db name hdb =>
    cases bytes with
    | nil => exact .inr ⟨rfl, _, rfl⟩
    | cons b rest =>
      refine .inl ⟨_, rfl, ?_, ?_, ?_⟩
      · rw [Storage.bytes?, Storage.rows_updateRows hdb]
        exact (lookup_putFirst (s.rows db) name name _).trans (if_pos rfl)
      · intro q hq
        cases q with
        | cell k => rfl
        | row db' name' =>
          by_cases hdb' : db' = db
          · subst hdb'
            have hname : name' ≠ name := fun h => hq (congrArg _ h)
            rw [Storage.bytes?, Storage.rows_updateRows hdb]
            exact (lookup_putFirst (s.rows db') name' name _).trans (if_neg hname)
          · rw [Storage.bytes?, Storage.rows_updateRows_of_ne hdb', Storage.bytes?]
      · simp [Storage.updateRows]

end Slot

end Reckoner
