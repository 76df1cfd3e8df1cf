import Reckoner.Error

/-!
# Matrices

Construction of matrices, products and inverses. Sums run from left to right and start at zero.
An inverse is computed from a decomposition with row exchanges, in a fixed order of operations,
because each of them rounds.
-/

namespace Reckoner

/-- The sum of products, from left to right. -/
def dotProduct : (start : Binary64) → List Binary64 → List Binary64 → Binary64
  | s, x :: xs, y :: ys => dotProduct (s + x * y) xs ys
  | s, _, _ => s

namespace Matrix

/-- The shape of a matrix in messages. -/
def shape (m : Matrix) : Text := "matrix[" ++ Text.ofNat m.rows ++ "x" ++ Text.ofNat m.cols ++ "]"

/-- A product of two sizes in 64 bits, as far as it shows. -/
def elementCount (rows cols : Int) : Int := (Int64.ofInt (rows * cols)).toInt

/-- A matrix with the given elements row by row, or of zeros. -/
def ofData (rows cols : Int) (data : Option (List Binary64)) : Except Error Matrix :=
  let size := Text.ofInt rows ++ "x" ++ Text.ofInt cols
  if rows ≤ 0 || cols ≤ 0 then
    .error (.other ("expressions: matrix dimensions " ++ size ++ " must be positive"))
  else
    let count := elementCount rows cols
    match data with
    | none =>
      if count < 0 then .error (.fault none)
      else .ok ⟨rows.toNat, cols.toNat, List.replicate count.toNat Binary64.zero⟩
    | some xs =>
      if (xs.length : Int) = count then .ok ⟨rows.toNat, cols.toNat, xs⟩
      else .error (.other ("expressions: " ++ Text.ofNat xs.length ++ " elements for a " ++ size
        ++ " matrix"))

/-- The matrix whose elements a function gives. -/
def build (rows cols : Nat) (f : Nat → Nat → Binary64) : Matrix :=
  ⟨rows, cols, (List.range rows).flatMap fun i => (List.range cols).map (f i)⟩

/-- The identity matrix. Sizes whose square does not show in 64 bits leave no room for the
diagonal. -/
def identity (n : Int) : Except Error Matrix := do
  let m ← ofData n n none
  if m.data.length = m.rows * m.cols then
    return build m.rows m.cols fun i j => if i = j then Binary64.one else Binary64.zero
  else throw (.fault none)

/-- The place of an element in the list of elements, computed in 64 bits. -/
def place (m : Matrix) (i j : Int) : Int := (Int64.ofInt (i * m.cols + j)).toInt

/-- The element at a place of the list of elements, if there is one. -/
def element? (m : Matrix) (i j : Int) : Option Binary64 :=
  if m.place i j < 0 then none else m.data[(m.place i j).toNat]?

/-- A function of every element. -/
def map (f : Binary64 → Binary64) (m : Matrix) : Matrix := { m with data := m.data.map f }

/-- Element by element, for matrices of equal shape. -/
def zip? (f : Binary64 → Binary64 → Binary64) (m n : Matrix) : Option Matrix :=
  if m.rows = n.rows && m.cols = n.cols then
    some { m with data := m.data.zipWith f n.data }
  else none

/-- The elements of a matrix by row and column. -/
abbrev Table := Array (Array Binary64)

/-- The element of a row and a column, and zero outside of the table. -/
def Table.get (t : Table) (i j : Nat) : Binary64 := (t[i]?.getD #[])[j]?.getD Binary64.zero

/-- The table with the element `f i j` in row `i` and column `j`. -/
def Table.build (rows cols : Nat) (f : Nat → Nat → Binary64) : Table :=
  ((List.range rows).map fun i => ((List.range cols).map (f i)).toArray).toArray

/-- The elements of a matrix as a table. -/
def table (m : Matrix) : Table :=
  let data := m.data.toArray
  Table.build m.rows m.cols fun i j => data[i * m.cols + j]?.getD Binary64.zero

/-- The sum of products over the elements of a row that are not zero. -/
def sparseDot : (start : Binary64) → List Binary64 → List Binary64 → Binary64
  | s, x :: xs, y :: ys => sparseDot (if x.isZero then s else s + x * y) xs ys
  | s, _, _ => s

/-- The product of two matrices whose inner dimensions agree. Zeros of the left one contribute
nothing, whatever they meet. -/
def mul? (m n : Matrix) : Option Matrix :=
  if m.cols = n.rows then
    let a := m.table
    let b := n.table
    some (build m.rows n.cols fun i j =>
      sparseDot Binary64.zero ((List.range m.cols).map (a.get i))
        ((List.range m.cols).map fun k => b.get k j))
  else none

/-- A matrix times a column. -/
def mulVector? (m : Matrix) (v : List Binary64) : Option (List Binary64) :=
  if m.cols = v.length then
    let a := m.table
    some ((List.range m.rows).map fun i =>
      Binary64.zero + dotProduct Binary64.zero ((List.range m.cols).map (a.get i)) v)
  else none

/-- A row times a matrix. -/
def vectorMul? (v : List Binary64) (m : Matrix) : Option (List Binary64) :=
  if v.length = m.rows then
    let a := m.table
    some ((List.range m.cols).map fun j =>
      dotProduct Binary64.zero v ((List.range m.rows).map fun i => a.get i j))
  else none

/-! ### Inverses -/

/-- The row from `k` on, of `n`, with the largest element in column `k`; of several the first. -/
def pivotRow (t : Table) (n k : Nat) : Nat :=
  (List.range n).foldl (fun best i =>
    if k < i && (t.get best k).abs.lt (t.get i k).abs then i else best) k

/-- The square table of size `n` with two rows in each other's places. -/
def Table.swapRows (t : Table) (n i j : Nat) : Table :=
  Table.build n n fun r c => t.get (if r = i then j else if r = j then i else r) c

/-- The smallest number whose reciprocal does not overflow. -/
def safeMinimum : Binary64 := ⟨0x0010000000000000⟩

/-- One step of the decomposition: exchanges rows, divides the column below the pivot by it, and
subtracts multiples of the pivot's row from the rows below. -/
def eliminate (n : Nat) (t : Table) (k : Nat) : Table :=
  let t := t.swapRows n k (pivotRow t n k)
  let pivot := t.get k k
  let factor (i : Nat) : Binary64 :=
    if pivot.abs.lt safeMinimum then t.get i k / pivot else t.get i k * (Binary64.one / pivot)
  Table.build n n fun i j =>
    if i ≤ k || j < k then t.get i j
    else if j = k then factor i
    else t.get i j + (factor i).neg * t.get k j

/-- Both triangular factors in one table, with the rows exchanged at each step; none if a pivot
is zero. -/
def decompose (n : Nat) (t : Table) : (steps : Nat) → Option (Table × List (Nat × Nat))
  | 0 => some (t, [])
  | k + 1 => do
    let (u, swaps) ← decompose n t k
    let p := pivotRow u n k
    if (u.get p k).isZero then none
    else some (eliminate n u k, swaps ++ [(k, p)])

/-- Inverts column `j` of the upper triangle, given that the columns before it are inverted. -/
def invertColumn (n : Nat) (t : Table) (j : Nat) : Table :=
  let d := Binary64.one / t.get j j
  let product (i : Nat) : Binary64 :=
    let rest := (List.range j).filter (i < ·)
    t.get i i * t.get i j + dotProduct Binary64.zero (rest.map (t.get i)) (rest.map (t.get · j))
  Table.build n n fun r c =>
    if c ≠ j then t.get r c
    else if r = j then d
    else if r < j then product r * d.neg
    else t.get r c

/-- Takes column `j` of the lower triangle away: what it held is multiplied with the columns
behind it and subtracted. -/
def absorbColumn (n : Nat) (t : Table) (j : Nat) : Table :=
  let behind := (List.range n).filter (j < ·)
  let w := behind.map (t.get · j)
  let cleared := Table.build n n fun r c => if c = j && j < r then Binary64.zero else t.get r c
  if j + 1 < n then
    Table.build n n fun r c =>
      if c = j then
        cleared.get r c + (dotProduct Binary64.zero (behind.map (cleared.get r)) w).neg
      else cleared.get r c
  else cleared

/-- The square table of size `n` with two columns in each other's places. -/
def Table.swapColumns (t : Table) (n i j : Nat) : Table :=
  Table.build n n fun r c => t.get r (if c = i then j else if c = j then i else c)

/-- The inverse of a square matrix; none if it has no finite one. A matrix with a NaN among its
elements has an inverse of NaNs only. -/
def squareInverse? (m : Matrix) : Option Matrix :=
  let n := m.rows
  if m.data.any Binary64.isNaN then some (build n n fun _ _ => Binary64.nan)
  else if m.data.any Binary64.isInfinite then none
  else do
    let (t, swaps) ← decompose n m.table n
    let t := (List.range n).foldl (invertColumn n) t
    let t := (List.range n).reverse.foldl (absorbColumn n) t
    let t := swaps.reverse.foldl (fun (t : Table) (i, j) => t.swapColumns n i j) t
    let r := build n n t.get
    if r.data.any Binary64.isInfinite then none else some r

/-- The inverse of a matrix. -/
def inverse (m : Matrix) : Except Error Matrix :=
  if m.rows ≠ m.cols then .error (.shapes "inverse" m.shape none)
  else match m.squareInverse? with
    | some r => .ok r
    | none => .error (.singular m.rows)

end Matrix

end Reckoner
