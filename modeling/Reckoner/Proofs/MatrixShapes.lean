import Reckoner.Proofs.MatrixPlaces
import Reckoner.Proofs.Total

/-!
# The shape of a matrix

What the operators, inverses and readers make of matrices that have all their elements has all its
elements again, and the shape that it should have. Operators take the pairs of matrices whose shapes
fit, and no others.
-/

namespace Reckoner

/-! ### Operators -/

namespace Operator

variable {op : Operator} {l r : Value} {k m n : Matrix}

/-- Operands from which an operator makes a matrix. -/
inductive MakesMatrix : Value → Value → Prop
  | both (m n : Matrix) : MakesMatrix (.matrix m) (.matrix n)
  | left (m : Matrix) (x : Binary64) : MakesMatrix (.matrix m) (.real x)
  | right (x : Binary64) (n : Matrix) : MakesMatrix (.real x) (.matrix n)

theorem makes_exact {sign : Text} {a : Int64} {b : Option Int64}
    (h : some (Integer.exact sign a b) = some (.ok (.matrix k))) : MakesMatrix l r := by
  unfold Integer.exact at h
  split at h <;> cases h

theorem makes_zipVectors {sign : Text} {f : Binary64 → Binary64 → Binary64} {xs ys : List Binary64}
    (h : some (Kernel.zipVectors sign f xs ys) = some (.ok (.matrix k))) : MakesMatrix l r := by
  unfold Kernel.zipVectors at h
  split at h <;> cases h

theorem makes_fittedVector {sign left right : Text} {v : Option (List Binary64)}
    (h : some (Kernel.fittedVector sign left right v) = some (.ok (.matrix k))) :
    MakesMatrix l r := by
  unfold Kernel.fittedVector at h
  split at h <;> cases h

theorem makes_repeatText {s : Text} {n : Int64}
    (h : some (Kernel.repeatText s n) = some (.ok (.matrix k))) : MakesMatrix l r := by
  unfold Kernel.repeatText at h
  split at h <;> cases h

theorem makes_divideReals {x y : Binary64}
    (h : some (Kernel.divideReals x y) = some (.ok (.matrix k))) : MakesMatrix l r := by
  unfold Kernel.divideReals at h
  split at h <;> [skip; split at h] <;> cases h

theorem makes_powerReals {x y : Binary64}
    (h : some (Kernel.powerReals x y) = some (.ok (.matrix k))) : MakesMatrix l r := by
  unfold Kernel.powerReals at h
  dsimp only at h
  split at h <;> cases h

theorem makes_additive {sign : Text} {f : Binary64 → Binary64 → Binary64}
    (h : Kernel.additive sign f l r = some (.ok (.matrix k))) : MakesMatrix l r := by
  cases l with
  | real x =>
    cases r with
    | matrix n => exact .right x n
    | _ => cases h
  | vector xs =>
    cases r with
    | vector ys => exact makes_zipVectors h
    | _ => cases h
  | matrix m =>
    cases r with
    | real y => exact .left m y
    | matrix n => exact .both m n
    | _ => cases h
  | _ => cases r <;> cases h

theorem makes_plus (h : Kernel.plus l r = some (.ok (.matrix k))) : MakesMatrix l r := by
  unfold Kernel.plus at h
  split at h
  · exact makes_exact h
  all_goals first | cases h | exact makes_additive h

theorem makes_minus (h : Kernel.minus l r = some (.ok (.matrix k))) : MakesMatrix l r := by
  unfold Kernel.minus at h
  split at h
  · exact makes_exact h
  all_goals first | cases h | exact makes_additive h

theorem makes_times (h : Kernel.times l r = some (.ok (.matrix k))) : MakesMatrix l r := by
  cases l with
  | int a =>
    cases r with
    | int b => exact makes_exact h
    | _ => cases h
  | text s =>
    cases r with
    | int n => exact makes_repeatText h
    | _ => cases h
  | real x =>
    cases r with
    | matrix n => exact .right x n
    | _ => cases h
  | vector xs =>
    cases r with
    | vector ys =>
      dsimp only [Kernel.times] at h
      split at h <;> cases h
    | matrix n => exact makes_fittedVector h
    | _ => cases h
  | matrix m =>
    cases r with
    | real y => exact .left m y
    | vector ys => exact makes_fittedVector h
    | matrix n => exact .both m n
    | _ => cases h
  | _ => cases r <;> cases h

theorem makes_divide (h : Kernel.divide l r = some (.ok (.matrix k))) : MakesMatrix l r := by
  cases l with
  | int a =>
    cases r with
    | int b =>
      dsimp only [Kernel.divide, Integer.div] at h
      split at h <;> cases h
    | _ => cases h
  | real x =>
    cases r with
    | real y => exact makes_divideReals h
    | _ => cases h
  | vector xs =>
    cases r with
    | matrix n =>
      dsimp only [Kernel.divide] at h
      cases hinv : n.inverse with
      | error e =>
        rw [hinv] at h
        cases h
      | ok inv =>
        rw [hinv] at h
        exact makes_fittedVector h
    | _ => cases h
  | matrix m =>
    cases r with
    | real y => exact .left m y
    | matrix n => exact .both m n
    | _ => cases h
  | timeSpan a =>
    cases r with
    | timeSpan b =>
      dsimp only [Kernel.divide] at h
      split at h <;> cases h
    | _ => cases h
  | _ => cases r <;> cases h

theorem makes_power (h : Kernel.power l r = some (.ok (.matrix k))) : MakesMatrix l r := by
  cases l with
  | int a =>
    cases r with
    | int b =>
      dsimp only [Kernel.power, Kernel.powerInts] at h
      split at h
      · cases h
      · exact makes_exact h
    | _ => cases h
  | real x =>
    cases r with
    | real y => exact makes_powerReals h
    | _ => cases h
  | vector xs =>
    cases r with
    | vector ys => exact makes_zipVectors h
    | _ => cases h
  | matrix m =>
    cases r with
    | real y => exact .left m y
    | matrix n => exact .both m n
    | _ => cases h
  | _ => cases r <;> cases h

theorem makes_logical {f : Bool → Bool → Bool}
    (h : Kernel.logical f l r = some (.ok (.matrix k))) : MakesMatrix l r := by
  unfold Kernel.logical at h
  split at h <;> cases h

theorem makes_equals (h : Kernel.equals l r = some (.ok (.matrix k))) : MakesMatrix l r := by
  unfold Kernel.equals at h
  split at h <;> cases h

theorem makes_notEquals (h : Kernel.notEquals l r = some (.ok (.matrix k))) :
    MakesMatrix l r := by
  unfold Kernel.notEquals at h
  split at h <;> cases h

theorem makes_ordered {holds : Ordering → Bool}
    (h : Kernel.ordered holds l r = some (.ok (.matrix k))) : MakesMatrix l r := by
  unfold Kernel.ordered at h
  rcases horder : Kernel.order? l r with _ | (o | _) <;> rw [horder] at h <;> cases h

theorem makes_generate (h : Kernel.generate l r = some (.ok (.matrix k))) : MakesMatrix l r := by
  unfold Kernel.generate at h
  split at h <;> [split at h; skip] <;> cases h

theorem makes_interval (h : Kernel.interval l r = some (.ok (.matrix k))) : MakesMatrix l r := by
  unfold Kernel.interval at h
  split at h <;> [split at h; skip] <;> cases h

theorem makes_modulo (h : Kernel.modulo l r = some (.ok (.matrix k))) : MakesMatrix l r := by
  unfold Kernel.modulo Integer.mod at h
  split at h <;> [split at h; split at h; skip] <;> cases h

/-- Only of matrices and reals does an operator make a matrix. -/
theorem makesMatrix (h : op.kernel l r = some (.ok (.matrix k))) : MakesMatrix l r := by
  cases op with
  | or => exact makes_logical h
  | and => exact makes_logical h
  | equals => exact makes_equals h
  | notEquals => exact makes_notEquals h
  | less => exact makes_ordered h
  | greater => exact makes_ordered h
  | lessEqual => exact makes_ordered h
  | greaterEqual => exact makes_ordered h
  | generate => exact makes_generate h
  | interval => exact makes_interval h
  | plus => exact makes_plus h
  | minus => exact makes_minus h
  | times => exact makes_times h
  | divide => exact makes_divide h
  | modulo => exact makes_modulo h
  | power => exact makes_power h

/-- The shapes of two matrices fit: for a product the inner dimensions agree, for a quotient the
right one is square in addition, and for anything else the shapes are the same. -/
def Fits (op : Operator) (m n : Matrix) : Prop :=
  match op with
  | times => m.cols = n.rows
  | divide => n.rows = n.cols ∧ m.cols = n.rows
  | _ => m.rows = n.rows ∧ m.cols = n.cols

variable {sign left right : Text} {f : Binary64 → Binary64 → Binary64}

end Operator

/-! ### Inverses -/

namespace Matrix

variable {m k : Matrix}

end Matrix

namespace Operator

variable {op : Operator} {m n : Matrix}

/-- With a real to its right, a matrix is taken element by element. -/
theorem map_left {x : Binary64} {k : Matrix}
    (h : op.kernel (.matrix m) (.real x) = some (.ok (.matrix k))) : ∃ f, k = m.map f := by
  cases op with
  | plus | minus | times | divide | power =>
    cases h
    exact ⟨_, rfl⟩
  | _ => cases h

/-- With a real to its left, a matrix is taken element by element. -/
theorem map_right {x : Binary64} {k : Matrix}
    (h : op.kernel (.real x) (.matrix n) = some (.ok (.matrix k))) : ∃ f, k = n.map f := by
  cases op with
  | plus | minus | times =>
    cases h
    exact ⟨_, rfl⟩
  | _ => cases h

end Operator

/-! ### All matrices -/

namespace Matrix

/-- How matrices come about: new ones whose elements can be counted, identity matrices, what
operators and inverses make of matrices, and those in values that are read. -/
inductive Made : Matrix → Prop
  /-- A new matrix, of elements or of zeros. -/
  | new {rows cols : Int64} {data : Option (List Binary64)} {m : Matrix} :
    Countable rows.toInt cols.toInt → ofData rows.toInt cols.toInt data = .ok m → Made m
  /-- An identity matrix. -/
  | identity {n : Int64} {m : Matrix} : Matrix.identity n.toInt = .ok m → Made m
  /-- What an operator makes of matrices or of other values. -/
  | computed {op : Operator} {l r : Value} {k : Matrix} : (∀ m, l = .matrix m → Made m) →
    (∀ m, r = .matrix m → Made m) → op.kernel l r = some (.ok (.matrix k)) → Made k
  /-- The inverse of a matrix. -/
  | inverse {m k : Matrix} : Made m → m.inverse = .ok k → Made k
  /-- A matrix in a value that is read from a stream. -/
  | read {r r' : Reader} {h h' : Heap} {v : Value} {m : Matrix} : r.catalog = Catalog.values →
    r.nextValue h = (.ok (some v), r', h') → h'.Reaches v (.matrix m) → Made m

/-- **Every matrix has all its elements.** -/
theorem Made.proper {m : Matrix} (hm : m.Made) : Value.Proper (.matrix m) := by
  induction hm with
  | new hcount hm =>
    obtain ⟨hrows, hcols, -⟩ := ofData_ok hm
    exact (proper_ofData hm).mpr (hcount hrows hcols)
  | identity hm => exact (identity_ok hm).2.2.1
  | computed _ _ hkernel ihl ihr =>
    cases Operator.makesMatrix hkernel with
    | both m n =>
      rcases Operator.kernel_made.value _ hkernel with hsimple | hmade
      · exact hsimple.elim
      · exact hmade (ihl m rfl) (ihr n rfl)
    | left m x =>
      obtain ⟨f, rfl⟩ := Operator.map_left hkernel
      exact proper_map f (ihl m rfl)
    | right x n =>
      obtain ⟨f, rfl⟩ := Operator.map_right hkernel
      exact proper_map f (ihr n rfl)
  | inverse _ hk ih => exact proper_inverse hk ih
  | @read r r' h h' v m hr hnext hreaches =>
    have hn := Reader.nextValue_next hr (Invariant.reading_start h)
    rw [hnext] at hn
    exact (Invariant.sound_of_reading hn.heap (hn.value v rfl) _ hreaches).1

/-- What comes of making a matrix of two sizes. If the elements can be counted there is no trap,
and a matrix that is given has its sizes. It has all its elements if and only if their number
shows in 64 bits, and then none of them is looked up outside. -/
structure New (rows cols : Int64) (data : Option (List Binary64)) : Prop where
  /-- There is no trap. -/
  trapFree : Countable rows.toInt cols.toInt → Guarded.newMatrix rows.toInt cols.toInt data =
    .ok (ofData rows.toInt cols.toInt data)
  /-- The matrix has the sizes that were asked for. -/
  shape : ∀ m, ofData rows.toInt cols.toInt data = .ok m →
    0 < m.rows ∧ 0 < m.cols ∧ m.rows = rows.toInt ∧ m.cols = cols.toInt
  /-- It has all its elements if their number fits in 64 bits, and only then. -/
  proper : ∀ m, ofData rows.toInt cols.toInt data = .ok m →
    (m.data.length = m.rows * m.cols ↔ rows.toInt * cols.toInt < 2 ^ 63)
  /-- Then none of them is looked up outside. -/
  accessible : ∀ m, ofData rows.toInt cols.toInt data = .ok m →
    rows.toInt * cols.toInt < 2 ^ 63 → m.Accessible

theorem new (rows cols : Int64) (data : Option (List Binary64)) : New rows cols data where
  trapFree := newMatrix_eq
  shape m hm := by
    obtain ⟨hrows, hcols, hr, hc, -⟩ := ofData_ok hm
    omega
  proper m hm := by
    obtain ⟨hrows, hcols, hr, hc, -⟩ := ofData_ok hm
    exact ⟨fun hlen => (proper_ofData hm).mp ⟨by omega, by omega, hlen⟩,
      fun hfits => ((proper_ofData hm).mpr hfits).2.2⟩
  accessible m hm hfits := accessible ((proper_ofData hm).mpr hfits) (room_ofData hm)

end Matrix

end Reckoner
