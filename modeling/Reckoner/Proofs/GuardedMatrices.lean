import Reckoner.Proofs.Guarded
import Reckoner.Proofs.Kernels

/-!
# Matrices by their places

A matrix is read by row and column, at a place of its list of elements, and linear algebra takes
operands that are not empty, have all their elements and match in their dimensions. None of this
traps on a matrix that has its elements; and products and inverses of such matrices have theirs.
-/

namespace Reckoner

namespace Matrix

theorem cut_succ {rows cols : Nat} {xs : List Binary64} (hlen : xs.length = (rows + 1) * cols)
    (hcols : 0 < cols) : cut cols (rows + 1) xs = xs.take cols :: cut cols rows (xs.drop cols) ∧
      cols ≤ xs.length ∧ (xs.drop cols).length = rows * cols := by
  rw [Nat.succ_mul] at hlen
  have hempty : xs.isEmpty = false := List.isEmpty_eq_false_iff_exists_mem.mpr
    (List.exists_mem_of_length_pos (by omega))
  refine ⟨by rw [cut, hempty, if_neg Bool.false_ne_true], by omega, ?_⟩
  rw [List.length_drop]
  omega

/-- Rows that are cut off a list of the right length are what the list was. -/
theorem flatten_cut {rows cols : Nat} {xs : List Binary64} (hlen : xs.length = rows * cols)
    (hcols : 0 < cols) : (cut cols rows xs).flatten = xs := by
  induction rows generalizing xs with
  | zero =>
    rw [Nat.zero_mul, List.length_eq_zero_iff] at hlen
    rw [hlen, cut]
    rfl
  | succ rows ih =>
    obtain ⟨hcut, -, hrest⟩ := cut_succ hlen hcols
    rw [hcut, List.flatten_cons, ih hrest, List.take_append_drop]

end Matrix

namespace Guarded

variable {m n : Matrix}

/-! ### Reading -/

/-- Rows are read off a list by their places. -/
theorem mapM_cut {rows cols : Nat} {xs : List Binary64} (hlen : xs.length = rows * cols)
    (hcols : 0 < cols) :
    (List.range rows).mapM (fun i => (List.range cols).mapM fun j => read xs (i * cols + j)) =
      .ok (Matrix.cut cols rows xs) := by
  induction rows generalizing xs with
  | zero => rfl
  | succ rows ih =>
    obtain ⟨hcut, hle, hlen'⟩ := Matrix.cut_succ hlen hcols
    have hfirst :
        (List.range cols).mapM (fun j => read xs (0 * cols + j)) = .ok (xs.take cols) := by
      have hcount : (xs.take cols).length = cols := List.length_take_of_le hle
      have hread : ∀ j (hj : j < (xs.take cols).length),
          read xs (0 * cols + j) = .ok (xs.take cols)[j] := fun j hj => by
        rw [Nat.zero_mul, Nat.zero_add, read_eq (by omega), List.getElem_take]
      have htake := mapM_eq hread
      rwa [hcount] at htake
    have hshift : ∀ i j, read xs (i.succ * cols + j) = read (xs.drop cols) (i * cols + j) := by
      intro i j
      rw [read, read, List.getElem?_drop, Nat.succ_mul]
      congr 2
      omega
    rw [List.range_succ_eq_map, List.mapM_cons, hfirst, ok_bind, List.mapM_map, hcut]
    simp only [Function.comp_def, hshift, ih hlen', ok_bind, pure_eq]

/-- The rows of a matrix, each element read at its place. -/
def rows (m : Matrix) : Guarded (List (List Binary64)) :=
  (List.range m.rows).mapM fun i => (List.range m.cols).mapM fun j => read m.data (i * m.cols + j)

theorem rows_eq (hm : Value.Proper (.matrix m)) : rows m = .ok m.rowList :=
  mapM_cut hm.2.2 hm.2.1

/-- The text of a matrix, row by row. -/
def matrixText (m : Matrix) : Guarded Text := do
  let rows ← rows m
  return "matrix(" ++ Text.join "; " (rows.map fun row => Text.join ", " (row.map Binary64.text))
    ++ ")"

/-- A matrix as an operand of linear algebra. -/
def dense (m : Matrix) : Guarded Matrix :=
  if 0 < m.rows && 0 < m.cols && m.data.length = m.rows * m.cols then .ok m
  else .error .dimensions

/-- A vector as an operand of linear algebra. -/
def denseVector (xs : List Binary64) : Guarded (List Binary64) :=
  if 0 < xs.length then .ok xs else .error .dimensions

/-- A result of linear algebra, which has none for operands that do not match. -/
def matching {α : Type} : Option α → Guarded α
  | some x => .ok x
  | none => .error .dimensions

/-- The inverse that linear algebra finds, if there is one. -/
def inverted (m : Matrix) : Guarded (Option Matrix) :=
  if m.rows = m.cols then .ok m.squareInverse? else .error .dimensions

/-- A matrix that holds the elements of a result of linear algebra. -/
def copyMatrix (m : Matrix) : Guarded Matrix := do
  let _ ← make (m.rows * m.cols) Binary64.zero
  return { m with data := (← rows m).flatten }

/-- A vector that holds the elements of a result of linear algebra. -/
def copyVector (xs : List Binary64) : Guarded (List Binary64) :=
  fill xs.length Binary64.zero (read xs)

theorem dense_eq (hm : Value.Proper (.matrix m)) : dense m = .ok m := by
  obtain ⟨hrows, hcols, hlen⟩ := hm
  rw [dense, if_pos (by simp [hrows, hcols, hlen])]

theorem copyMatrix_eq (hm : Value.Proper (.matrix m)) : copyMatrix m = .ok m := by
  have hflatten : m.rowList.flatten = m.data := Matrix.flatten_cut hm.2.2 hm.2.1
  rw [copyMatrix, ← Nat.cast_mul, make_eq, ok_bind, rows_eq hm, ok_bind, hflatten]
  rfl

theorem copyVector_eq (xs : List Binary64) : copyVector xs = .ok xs :=
  fill_eq _ fun _ hi => read_eq hi

/-- The inverse of a matrix. -/
def inverse (m : Matrix) : Guarded (Except Error Matrix) :=
  if m.rows ≠ m.cols then return .error (.shapes "inverse" m.shape none)
  else do
    match ← inverted (← dense m) with
    | none => return .error (.singular m.rows)
    | some k => return .ok (← copyMatrix k)

end Guarded

end Reckoner
