import Reckoner.Proofs.GuardedMatrices

/-!
# The elements of a matrix

A matrix is used by rows and columns: the element in row `i` and column `j` is looked up at
`i * cols + j`, which is computed in 64 bits, and so is the number of elements that a new matrix
should have. As long as the number of elements shows in 64 bits, a constructed matrix has all of
them and nothing is looked up outside of them.

Larger sizes are not refused by all constructors: the product of rows and columns can wrap around
to the number of elements that are there. Then the diagonal of an identity matrix leaves it.
-/

namespace Reckoner

/-! ### Places -/

namespace Matrix

/-- If both sizes are positive, their product shows in 64 bits. -/
def Countable (rows cols : Int) : Prop := 0 < rows → 0 < cols → rows * cols < 2 ^ 63

theorem elementCount_eq {rows cols : Int} (hrows : 0 < rows) (hcols : 0 < cols)
    (hcount : Countable rows cols) : elementCount rows cols = rows * cols := by
  have hpos := Int.mul_pos hrows hcols
  exact Int64.toInt_ofInt_of_le (by omega) (hcount hrows hcols)

/-- An element comes before the end of the last row. -/
theorem rowMajor_lt {rows cols i j : Nat} (hi : i < rows) (hj : j < cols) :
    i * cols + j < rows * cols :=
  calc i * cols + j < i * cols + cols := Nat.add_lt_add_left hj _
    _ = (i + 1) * cols := (Nat.succ_mul i cols).symm
    _ ≤ rows * cols := Nat.mul_le_mul_right cols hi

theorem place_eq {m : Matrix} {i j : Nat} (h : i * m.cols + j < 2 ^ 63) :
    m.place i j = (i * m.cols + j : Nat) := by
  unfold place
  exact_mod_cast Int64.toInt_ofInt_of_le (n := ((i * m.cols + j : Nat) : Int)) (by omega)
    (by exact_mod_cast h)

end Matrix

/-! ### Constructing and reading -/

namespace Guarded

variable {α : Type}

/-- The item at a place that is computed in 64 bits. -/
def readAt (xs : List α) (k : Int) : Guarded α :=
  if k < 0 then .error .index else read xs k.toNat

/-- Replaces the item at a place that is computed in 64 bits. -/
def writeAt (xs : List α) (k : Int) (x : α) : Guarded (List α) :=
  if k < 0 then .error .index else write xs k.toNat x

/-- The element in a row and a column. -/
def element (m : Matrix) (i j : Int) : Guarded Binary64 := readAt m.data (m.place i j)

/-- The text of a matrix, its elements looked up one by one. -/
def elementsText (m : Matrix) : Guarded Text := do
  let rows ← (List.range m.rows).mapM fun i : Nat =>
    (List.range m.cols).mapM fun j : Nat => element m i j
  return "matrix(" ++ Text.join "; " (rows.map fun row => Text.join ", " (row.map Binary64.text))
    ++ ")"

/-- A matrix with the given elements row by row, or of zeros. -/
def newMatrix (rows cols : Int) (data : Option (List Binary64)) :
    Guarded (Except Error Matrix) := do
  let size := Text.ofInt rows ++ "x" ++ Text.ofInt cols
  if rows ≤ 0 || cols ≤ 0 then
    return .error (.other ("expressions: matrix dimensions " ++ size ++ " must be positive"))
  else
    let xs ← match data with
      | some xs => pure xs
      | none => make (Matrix.elementCount rows cols) Binary64.zero
    if (xs.length : Int) = Matrix.elementCount rows cols then
      return .ok ⟨rows.toNat, cols.toNat, xs⟩
    else
      return .error (.other ("expressions: " ++ Text.ofNat xs.length ++ " elements for a " ++ size
        ++ " matrix"))

/-- Writes one item to several places. -/
def writeAll (xs : List α) (places : List Int) (x : α) : Guarded (List α) :=
  places.foldlM (fun xs k => writeAt xs k x) xs

/-- The identity matrix: a matrix of zeros, and ones written over its diagonal. -/
def identity (n : Int) : Guarded (Except Error Matrix) := do
  match ← newMatrix n n none with
  | .error e => return .error e
  | .ok m =>
    let diagonal := (List.range m.rows).map fun i : Nat => m.place i i
    return .ok { m with data := ← writeAll m.data diagonal Binary64.one }

theorem readAt_eq {xs : List α} {i : Nat} (hi : i < xs.length) : readAt xs i = .ok xs[i] := by
  rw [readAt, if_neg (by omega), Int.toNat_natCast, read_eq hi]

theorem writeAt_eq {xs : List α} {i : Nat} (hi : i < xs.length) (x : α) :
    writeAt xs i x = .ok (xs.set i x) := by
  rw [writeAt, if_neg (by omega), Int.toNat_natCast, write_eq hi]

/-- What is there after writing to places inside. -/
theorem writeAll_eq {xs : List α} {places : List Nat} (x : α)
    (hplaces : ∀ p ∈ places, p < xs.length) :
    ∃ ys, writeAll xs (places.map Int.ofNat) x = .ok ys ∧ ys.length = xs.length ∧
      ∀ p < xs.length, ys[p]? = if p ∈ places then some x else xs[p]? := by
  induction places generalizing xs with
  | nil => exact ⟨xs, rfl, rfl, fun p _ => by simp⟩
  | cons q places ih =>
    obtain ⟨hq, hplaces⟩ := List.forall_mem_cons.mp hplaces
    have hrest : ∀ p ∈ places, p < (xs.set q x).length := by simpa using hplaces
    obtain ⟨ys, hys, hlen, hread⟩ := ih hrest
    rw [List.length_set] at hlen hread
    refine ⟨ys, ?_, hlen, fun p hp => ?_⟩
    · rw [writeAll, List.map_cons, List.foldlM_cons, Int.ofNat_eq_natCast, writeAt_eq hq, ok_bind]
      exact hys
    · rw [hread p hp, List.getElem?_set]
      by_cases hmem : p ∈ places
      · simp [hmem]
      · by_cases hpq : q = p
        · simp [hmem, hpq, hp]
        · simp [hmem, hpq, Ne.symm hpq]

/-! ### Matrices with all their elements -/

theorem mapM_congr {α β : Type} {xs : List α} {f g : α → Guarded β} (h : ∀ x ∈ xs, f x = g x) :
    xs.mapM f = xs.mapM g := by
  induction xs with
  | nil => rfl
  | cons x xs ih =>
    obtain ⟨hx, hxs⟩ := List.forall_mem_cons.mp h
    rw [List.mapM_cons, List.mapM_cons, hx, ih hxs]

variable {m : Matrix}

/-- Inside of a matrix whose elements can be counted, a place is what it should be. -/
theorem element_eq (hm : Value.Proper (.matrix m)) (hroom : m.data.length < 2 ^ 63) {i j : Nat}
    (hi : i < m.rows) (hj : j < m.cols) : element m i j = read m.data (i * m.cols + j) := by
  have hlt : i * m.cols + j < m.data.length := by
    rw [hm.2.2]
    exact Matrix.rowMajor_lt hi hj
  rw [element, Matrix.place_eq (hlt.trans hroom), readAt_eq hlt, read_eq hlt]

theorem elementsText_eq (hm : Value.Proper (.matrix m)) (hroom : m.data.length < 2 ^ 63) :
    elementsText m = .ok m.text := by
  have hrows : (List.range m.rows).mapM (fun i : Nat =>
      (List.range m.cols).mapM fun j : Nat => element m i j) = rows m := by
    refine mapM_congr fun i hi => mapM_congr fun j hj => ?_
    exact element_eq hm hroom (List.mem_range.mp hi) (List.mem_range.mp hj)
  rw [elementsText, hrows, rows_eq hm]
  rfl

end Guarded

/-- No element of the matrix is looked up outside of its elements, be it by row and column or for
its text, and the one that is found stands there row by row. -/
structure Matrix.Accessible (m : Matrix) : Prop where
  /-- The element of a row and a column is found in its place. -/
  element : ∀ i j : Nat, i < m.rows → j < m.cols → ∃ x, m.data[i * m.cols + j]? = some x ∧
    Guarded.element m i j = .ok x ∧ m.element? i j = some x
  /-- The text is made without a look outside. -/
  text : Guarded.elementsText m = .ok m.text

namespace Matrix

theorem accessible {m : Matrix} (hm : Value.Proper (.matrix m)) (hroom : m.data.length < 2 ^ 63) :
    m.Accessible where
  element i j hi hj := by
    have hlt : i * m.cols + j < m.data.length := by
      rw [hm.2.2]
      exact rowMajor_lt hi hj
    refine ⟨m.data[i * m.cols + j], List.getElem?_eq_getElem hlt, ?_, ?_⟩
    · rw [Guarded.element_eq hm hroom hi hj, Guarded.read_eq hlt]
    · rw [element?, place_eq (hlt.trans hroom), if_neg (by omega), Int.toNat_natCast,
        List.getElem?_eq_getElem hlt]
  text := Guarded.elementsText_eq hm hroom

/-! ### New matrices -/

variable {rows cols : Int} {data : Option (List Binary64)} {m : Matrix}

/-- A new matrix has the sizes that it was asked for, and as many elements as their product shows
in 64 bits. -/
theorem ofData_ok (hm : ofData rows cols data = .ok m) : 0 < rows ∧ 0 < cols ∧
    m.rows = rows.toNat ∧ m.cols = cols.toNat ∧ (m.data.length : Int) = elementCount rows cols := by
  unfold ofData at hm
  split at hm
  · cases hm
  · next hpos =>
    simp only [Bool.or_eq_true, decide_eq_true_eq, not_or, not_le] at hpos
    cases data with
    | none =>
      dsimp only at hm
      split at hm
      · cases hm
      · next hcount =>
        cases hm
        refine ⟨hpos.1, hpos.2, rfl, rfl, ?_⟩
        rw [List.length_replicate]
        omega
    | some xs =>
      dsimp only at hm
      split at hm
      · next hcount =>
        cases hm
        exact ⟨hpos.1, hpos.2, rfl, rfl, hcount⟩
      · cases hm

/-- A new matrix has all its elements if and only if their number shows in 64 bits. -/
theorem proper_ofData (hm : ofData rows cols data = .ok m) :
    Value.Proper (.matrix m) ↔ rows * cols < 2 ^ 63 := by
  obtain ⟨hrows, hcols, hr, hc, hlen⟩ := ofData_ok hm
  have hprod : (m.rows * m.cols : Int) = rows * cols := by
    rw [hr, hc, Int.toNat_of_nonneg hrows.le, Int.toNat_of_nonneg hcols.le]
  constructor
  · intro hproper
    have hcount : elementCount rows cols < 2 ^ 63 := Int64.toInt_lt _
    rw [← hlen, hproper.2.2, Nat.cast_mul, hprod] at hcount
    exact hcount
  · intro hfits
    rw [elementCount_eq hrows hcols fun _ _ => hfits, ← hprod] at hlen
    exact ⟨by omega, by omega, by exact_mod_cast hlen⟩

/-- The number of elements of a new matrix shows in 64 bits. -/
theorem room_ofData (hm : ofData rows cols data = .ok m) : m.data.length < 2 ^ 63 := by
  have hlen := (ofData_ok hm).2.2.2.2
  have hcount : elementCount rows cols < 2 ^ 63 := Int64.toInt_lt _
  omega

/-- Sizes that do not show as negative ones give what they give without a trap. -/
theorem newMatrix_nonneg (hcount : 0 < rows → 0 < cols → 0 ≤ elementCount rows cols) :
    Guarded.newMatrix rows cols data = .ok (ofData rows cols data) := by
  unfold Guarded.newMatrix ofData
  split
  · rfl
  · next hpos =>
    simp only [Bool.or_eq_true, decide_eq_true_eq, not_or, not_le] at hpos
    have hnonneg := hcount hpos.1 hpos.2
    cases data with
    | none =>
      have hlen : ((List.replicate (elementCount rows cols).toNat Binary64.zero).length : Int)
          = elementCount rows cols := by
        rw [List.length_replicate, Int.toNat_of_nonneg hnonneg]
      dsimp only
      rw [Guarded.make_of_nonneg hnonneg, Guarded.ok_bind, if_pos hlen, if_neg (by omega)]
      rfl
    | some xs =>
      dsimp only
      rw [Guarded.pure_eq, Guarded.ok_bind]
      split <;> rfl

/-- **Making a matrix does not trap** if its elements can be counted, or if its sizes are
refused. -/
theorem newMatrix_eq (hcount : Countable rows cols) :
    Guarded.newMatrix rows cols data = .ok (ofData rows cols data) :=
  newMatrix_nonneg fun hrows hcols => by
    rw [elementCount_eq hrows hcols hcount]
    exact Int.mul_nonneg hrows.le hcols.le

/-! ### Identity matrices -/

variable {n : Int}

/-- The upper half of the words shows as negative numbers. -/
theorem toInt_neg {k : Nat} (hlo : 2 ^ 63 ≤ k) (hhi : k < 2 ^ 64) : (Int64.ofInt k).toInt < 0 := by
  have hmod : (k : Int) % (2 ^ 64 : Nat) = k := Int.emod_eq_of_lt (by omega) (by exact_mod_cast hhi)
  have hsize : Int64.size = 2 ^ 64 := rfl
  rw [Int64.toInt_ofInt, hsize, Int.bmod, hmod]
  split
  · next hlt =>
    norm_num at hlt
    omega
  · norm_num
    omega

/-- An identity matrix has its size and all its elements. -/
theorem identity_ok (hm : identity n = .ok m) : m.rows = n.toNat ∧ m.cols = n.toNat ∧
    Value.Proper (.matrix m) ∧ m.data.length < 2 ^ 63 := by
  unfold identity at hm
  cases hnew : ofData n n none with
  | error e =>
    rw [hnew] at hm
    cases hm
  | ok k =>
    obtain ⟨hn, -, hrows, hcols, -⟩ := ofData_ok hnew
    have hroom := room_ofData hnew
    rw [hnew] at hm
    dsimp only [bind, Except.bind] at hm
    split at hm
    · next hlen =>
      cases hm
      have hpos : 0 < k.rows ∧ 0 < k.cols := by omega
      have hbuild := proper_build (fun i j => if i = j then Binary64.one else Binary64.zero)
        hpos.1 hpos.2
      exact ⟨hrows, hcols, hbuild, by rw [hbuild.2.2]; exact hlen ▸ hroom⟩
    · cases hm

end Matrix

end Reckoner
