import Reckoner.Proofs.CheckedIntegers
import Reckoner.Proofs.GuardedMatrices

/-!
# Kernels with their partial operations

The kernels once more, where they read, write, divide, make sequences or use linear algebra: each
loop goes by places, and each of these operations traps if it is not possible. Where a kernel does
none of this, it is what it was.

A kernel replies with a value, with an error, or with the mark for operands it does not know. The
mark stands where an error would, as nothing but the code that asks the kernel keeps it from
getting out.

For proper operands, whose matrices have their elements, no kernel traps and the replies are the
answers of the kernels: the tests of lengths and shapes come before what they guard.
-/

namespace Reckoner

/-- Why there is no value. -/
inductive Failure where
  /-- The mark of a kernel that does not know the operands. -/
  | noKernel
  /-- An error to report. -/
  | cause (e : Error)

/-- A value and a failure. Nothing in the type keeps both, or neither, from being there. -/
structure Reply where
  value : Option Value
  failure : Option Failure

/-- How a kernel replies with an answer. -/
def Answer.reply : Answer → Reply
  | none => ⟨none, some .noKernel⟩
  | some (.ok v) => ⟨some v, none⟩
  | some (.error e) => ⟨none, some (.cause e)⟩

namespace Guarded

/-- Replies without a trap. -/
def reply (a : Answer) : Guarded Reply := .ok a.reply

/-- A value as the result of a kernel. -/
def give (v : Value) : Guarded Reply := reply (some (.ok v))

/-- An error as the result of a kernel. -/
def fail (e : Error) : Guarded Reply := reply (some (.error e))

variable {l r : Value} {limit : Nat}

/-! ### Element by element -/

/-- A function of every element of a vector, read one by one into new memory. -/
def mapVector (xs : List Binary64) (f : Binary64 → Binary64) : Guarded Reply := do
  give (.vector (← fill xs.length Binary64.zero fun i => do return f (← read xs i)))

/-- A function of every element of a matrix, which keeps its shape. -/
def mapMatrix (m : Matrix) (f : Binary64 → Binary64) : Guarded Reply := do
  let data ← fill m.data.length Binary64.zero fun i => do return f (← read m.data i)
  give (.matrix { m with data := data })

/-- A function of the elements of two vectors in the same places. The lengths are compared first. -/
def zipVector (op : Text) (f : Binary64 → Binary64 → Binary64) (xs ys : List Binary64) :
    Guarded Reply :=
  if xs.length ≠ ys.length then
    fail (.shapes op (Kernel.vectorShape xs) (some (Kernel.vectorShape ys)))
  else do
    let data ← fill xs.length Binary64.zero fun i => do return f (← read xs i) (← read ys i)
    give (.vector data)

/-- A function of the elements of two matrices in the same places. The shapes are compared first. -/
def zipMatrix (op : Text) (f : Binary64 → Binary64 → Binary64) (m n : Matrix) : Guarded Reply :=
  if m.rows ≠ n.rows || m.cols ≠ n.cols then fail (.shapes op m.shape (some n.shape))
  else do
    let data ← fill m.data.length Binary64.zero fun i => do
      return f (← read m.data i) (← read n.data i)
    give (.matrix { m with data := data })

/-- Every point shifted by `d` times `sign`. -/
def translate (ps : List Point) (d : Point) (sign : Binary64) : Guarded Reply := do
  let moved ← fill ps.length ⟨Binary64.zero, Binary64.zero⟩ fun i => do
    let p ← read ps i
    return ⟨p.x + sign * d.x, p.y + sign * d.y⟩
  give (.pointVector moved)

theorem mapVector_eq (xs : List Binary64) (f : Binary64 → Binary64) :
    mapVector xs f = give (.vector (xs.map f)) := by
  rw [mapVector, fill_map, ok_bind]

theorem mapMatrix_eq (m : Matrix) (f : Binary64 → Binary64) :
    mapMatrix m f = give (.matrix (m.map f)) := by
  rw [mapMatrix, fill_map, ok_bind]
  rfl

/-- The sum of products. -/
def dot (xs ys : List Binary64) : Guarded Reply :=
  if xs.length ≠ ys.length then
    fail (.shapes "*" (Kernel.vectorShape xs) (some (Kernel.vectorShape ys)))
  else do
    let sum ← (List.range xs.length).foldlM
      (fun s i => do return s + (← read xs i) * (← read ys i)) Binary64.zero
    give (.real sum)

/-- The product of two matrices whose inner sizes have been compared. -/
def matMul (op : Text) (m n : Matrix) : Guarded Reply :=
  if m.cols ≠ n.rows then fail (.shapes op m.shape (some n.shape))
  else do
    let m ← dense m
    let n ← dense n
    give (.matrix (← copyMatrix (← matching (m.mul? n))))

/-- The product of a matrix and a vector whose sizes have been compared. -/
def matVec (op : Text) (m : Matrix) (xs : List Binary64) : Guarded Reply :=
  if m.cols ≠ xs.length then fail (.shapes op m.shape (some (Kernel.vectorShape xs)))
  else do
    let m ← dense m
    let xs ← denseVector xs
    give (.vector (← copyVector (← matching (m.mulVector? xs))))

/-- The product of a vector and a matrix whose sizes have been compared. -/
def vecMat (op : Text) (xs : List Binary64) (m : Matrix) : Guarded Reply :=
  if xs.length ≠ m.rows then fail (.shapes op (Kernel.vectorShape xs) (some m.shape))
  else do
    let m ← dense m
    let xs ← denseVector xs
    give (.vector (← copyVector (← matching (Matrix.vectorMul? xs m))))

theorem foldl_zip (s : Binary64) (xs ys : List Binary64) :
    (xs.zip ys).foldl (fun s p => s + p.1 * p.2) s = dotProduct s xs ys := by
  induction xs generalizing ys s with
  | nil => cases ys <;> rfl
  | cons x xs ih =>
    cases ys with
    | nil => rfl
    | cons y ys => exact ih (s + x * y) ys

theorem dot_eq (xs ys : List Binary64) :
    dot xs ys = reply (some (if xs.length = ys.length then
        .ok (.real (dotProduct Binary64.zero xs ys))
      else .error (.shapes "*" (Kernel.vectorShape xs) (some (Kernel.vectorShape ys))))) := by
  unfold dot
  by_cases h : xs.length = ys.length
  · rw [if_neg (not_not.mpr h), if_pos h, foldlM_read h fun s x y => s + x * y, ok_bind, foldl_zip]
    rfl
  · rw [if_pos h, if_neg h]
    rfl

theorem matMul_eq (op : Text) {m n : Matrix} (hm : Value.Proper (.matrix m))
    (hn : Value.Proper (.matrix n)) :
    matMul op m n = reply (some (Kernel.fitted op m.shape n.shape (m.mul? n))) := by
  unfold matMul
  by_cases h : m.cols = n.rows
  · obtain ⟨k, hk⟩ : ∃ k, m.mul? n = some k := ⟨_, if_pos h⟩
    rw [if_neg (not_not.mpr h), dense_eq hm, ok_bind, dense_eq hn, ok_bind, hk, matching, ok_bind,
      copyMatrix_eq (Matrix.proper_mul hk hm hn), ok_bind]
    rfl
  · rw [if_pos h, Matrix.mul?, if_neg h]
    rfl

theorem matVec_eq (op : Text) {m : Matrix} (hm : Value.Proper (.matrix m)) (xs : List Binary64) :
    matVec op m xs =
      reply (some (Kernel.fittedVector op m.shape (Kernel.vectorShape xs) (m.mulVector? xs))) := by
  unfold matVec Matrix.mulVector?
  by_cases h : m.cols = xs.length
  · have hpos : 0 < xs.length := h ▸ hm.2.1
    rw [if_neg (not_not.mpr h), dense_eq hm, ok_bind, denseVector, if_pos hpos, ok_bind, if_pos h,
      matching, ok_bind, copyVector_eq, ok_bind]
    rfl
  · rw [if_pos h, if_neg h]
    rfl

theorem vecMat_eq (op : Text) (xs : List Binary64) {m : Matrix} (hm : Value.Proper (.matrix m)) :
    vecMat op xs m =
      reply (some (Kernel.fittedVector op (Kernel.vectorShape xs) m.shape
        (Matrix.vectorMul? xs m))) := by
  unfold vecMat Matrix.vectorMul?
  by_cases h : xs.length = m.rows
  · have hpos : 0 < xs.length := h ▸ hm.1
    rw [if_neg (not_not.mpr h), dense_eq hm, ok_bind, denseVector, if_pos hpos, ok_bind, if_pos h,
      matching, ok_bind, copyVector_eq, ok_bind]
    rfl
  · rw [if_pos h, if_neg h]
    rfl

/-! ### Arithmetic -/

/-- The loops that `+` and `-` share; what they give for other operands is known already. -/
def additive (op : Text) (f : Binary64 → Binary64 → Binary64) (known : Answer) (l r : Value) :
    Guarded Reply :=
  match l, r with
  | .real x, .vector ys => mapVector ys (f x)
  | .real x, .matrix n => mapMatrix n (f x)
  | .vector xs, .real y => mapVector xs (f · y)
  | .vector xs, .vector ys => zipVector op f xs ys
  | .matrix m, .real y => mapMatrix m (f · y)
  | .matrix m, .matrix n => zipMatrix op f m n
  | _, _ => reply known

/-- The kernel of `+`, reading the elements of its operands one by one. -/
def plus (l r : Value) : Guarded Reply :=
  match l, r with
  | .pointVector ps, .point d => translate ps d Binary64.one
  | l, r => additive "+" Binary64.add (Kernel.plus l r) l r

/-- The kernel of `-`, reading the elements of its operands one by one. -/
def minus (l r : Value) : Guarded Reply :=
  match l, r with
  | .pointVector ps, .point d => translate ps d Binary64.one.neg
  | l, r => additive "-" Binary64.sub (Kernel.minus l r) l r

/-- Whether a text of some length would be too long, repeated `n` times. An empty text never is,
and nothing is divided by its length. -/
def tooLong (length : Nat) (n : Int64) : Guarded Bool :=
  if 0 < length then do
    let most ← quotient maxCollectionLength length
    return most < n.toInt
  else return false

/-- A text repeated. A negative count traps, and a length beyond 64 bits. -/
def repeatText (s : Text) (n : Int64) : Guarded Reply :=
  if n.toInt < 0 then fail (.outsideDomain (some (.int n)) 2 "*")
  else do
    if ← tooLong s.length n then fail (.outsideDomain (some (.int n)) 2 "*")
    else
      let _ ← make n.toInt ()
      if 2 ^ 63 ≤ n.toInt * s.length then .error .size
      else give (.text (if s.isEmpty then [] else s.times n.toInt.toNat))

/-- The kernel of `*`. The product of two integers is checked by dividing it again. -/
def times (l r : Value) : Guarded Reply :=
  match l, r with
  | .int a, .int b => do reply (some (Integer.exact "*" b (← product a b)))
  | .text s, .int n => repeatText s n
  | .real x, .vector ys => mapVector ys (x * ·)
  | .real x, .matrix n => mapMatrix n (x * ·)
  | .vector xs, .real y => mapVector xs (· * y)
  | .vector xs, .vector ys => dot xs ys
  | .vector xs, .matrix n => vecMat "*" xs n
  | .matrix m, .real y => mapMatrix m (· * y)
  | .matrix m, .vector ys => matVec "*" m ys
  | .matrix m, .matrix n => matMul "*" m n
  | l, r => reply (Kernel.times l r)

/-- Goes on with the inverse of a matrix. -/
def withInverse (m : Matrix) (f : Matrix → Guarded Reply) : Guarded Reply := do
  match ← inverse m with
  | .error e => fail e
  | .ok k => f k

/-- The kernel of `/`. A zero divisor of an integer is refused before the division is made. -/
def divide (l r : Value) : Guarded Reply :=
  match l, r with
  | .int a, .int b =>
    if b = 0 then fail (.outsideDomain (some (.int b)) 2 "/")
    else do give (.int (← quotient a b))
  | .vector xs, .real y => mapVector xs (· / y)
  | .vector xs, .matrix n => withInverse n (vecMat "/" xs)
  | .matrix m, .real y => mapMatrix m (· / y)
  | .matrix m, .matrix n => withInverse n (matMul "/" m)
  | l, r => reply (Kernel.divide l r)

/-- The kernel of `%`. A zero divisor of an integer is refused before the remainder is taken. -/
def modulo (l r : Value) : Guarded Reply :=
  match l, r with
  | .int a, .int b =>
    if b = 0 then fail (.outsideDomain (some (.int b)) 2 "%")
    else do give (.int (← remainder a b))
  | l, r => reply (Kernel.modulo l r)

/-- The kernel of `^`, whose loop over an integer exponent makes at most `limit` rounds. -/
def power (limit : Nat) (l r : Value) : Guarded Reply :=
  match l, r with
  | .int a, .int b =>
    if b < 0 then reply (Kernel.power l r)
    else do reply (some (Integer.exact "^" b (← powerOf limit a b)))
  | .vector xs, .real y => mapVector xs (·.pow y)
  | .vector xs, .vector ys => zipVector "^" Binary64.pow xs ys
  | .matrix m, .real y => mapMatrix m (·.pow y)
  | .matrix m, .matrix n => zipMatrix "^" Binary64.pow m n
  | l, r => reply (Kernel.power l r)

theorem tooLong_eq (length : Nat) (n : Int64) :
    tooLong length n = .ok (Kernel.tooLong length n) := by
  unfold tooLong Kernel.tooLong
  by_cases hpos : 0 < length
  · rw [if_pos hpos, quotient_eq (by omega), ok_bind, pure_eq, decide_eq_true hpos, Bool.true_and]
  · rw [if_neg hpos, pure_eq, decide_eq_false hpos, Bool.false_and]

theorem repeatText_eq (s : Text) (n : Int64) :
    repeatText s n = reply (some (Kernel.repeatText s n)) := by
  have hsign : n < 0 ↔ n.toInt < 0 := Int64.lt_iff_toInt_lt
  unfold repeatText Kernel.repeatText
  by_cases hn : n.toInt < 0
  · rw [if_pos hn, if_pos (by simp [hsign, hn])]
    rfl
  · rw [if_neg hn, tooLong_eq, ok_bind]
    cases hlong : Kernel.tooLong s.length n with
    | true =>
      rw [if_pos rfl, if_pos (by simp)]
      rfl
    | false =>
      have hmax : (maxCollectionLength : Int) < 2 ^ 63 := by decide
      have hfits : ¬ (maxCollectionLength : Int) < n.toInt * s.length := by
        rw [← Kernel.tooLong_iff (not_lt.mp hn), hlong]
        nofun
      have hshort : ¬ 2 ^ 63 ≤ n.toInt * s.length := by omega
      have hallowed : ¬ (decide (n < 0) || false) = true := by simpa [hsign] using hn
      rw [if_neg nofun, make_of_nonneg (not_lt.mp hn), ok_bind, if_neg hshort, if_neg hallowed]
      rfl

theorem times_eq (hl : l.Proper) (hr : r.Proper) : times l r = reply (Kernel.times l r) := by
  unfold times
  split
  · rw [product_eq]; rfl
  · exact repeatText_eq _ _
  · exact mapVector_eq _ _
  · exact mapMatrix_eq _ _
  · exact mapVector_eq _ _
  · exact dot_eq _ _
  · exact vecMat_eq _ _ hr
  · exact mapMatrix_eq _ _
  · exact matVec_eq _ hl _
  · exact matMul_eq _ hl hr
  · rfl

/-- The left operand, so many times. -/
def generate (l r : Value) : Guarded Reply :=
  match r with
  | .int n =>
    if n.toInt < 0 || maxCollectionLength < n.toInt then
      fail (.outsideDomain (some (.int n)) 2 "#")
    else do
      let items ← fill n.toInt none fun _ => return some l
      give (.array l.kind (← items.mapM present))
  | _ => reply none

/-- The integers from one to the other. Room for all of them is made before. -/
def interval (limit : Nat) (l r : Value) : Guarded Reply :=
  match l, r with
  | .int a, .int b =>
    if maxCollectionLength ≤ (Kernel.distance a b).toNat then
      fail (.outsideDomain (some (.int b)) 2 "...")
    else do
      let _ ← make (Kernel.distance a b + 1).toNat ()
      give (.array .int (← countTo limit (Kernel.stride (b < a)) b a []))
  | _, _ => reply none

theorem interval_eq (hlimit : maxCollectionLength ≤ limit) (l r : Value) :
    interval limit l r = reply (Kernel.interval l r) := by
  cases l with
  | int a =>
    cases r with
    | int b =>
      dsimp only [interval, Kernel.interval]
      by_cases hfar : maxCollectionLength ≤ (Kernel.distance a b).toNat
      · rw [if_pos hfar, if_pos hfar]
        rfl
      · have hsteps : Kernel.stepsTo (b < a) b a < limit := by
          rw [Kernel.stepsTo_eq]
          omega
        rw [if_neg hfar, if_neg hfar, make_eq, ok_bind, countTo_eq hsteps, ok_bind]
        rfl
    | _ => rfl
  | _ => rfl

/-! ### Comparisons -/

/-- Whether two sequences have the same length and agree at each place. -/
def agree {α : Type} (eq : α → α → Bool) (xs ys : List α) : Guarded Bool :=
  if xs.length ≠ ys.length then return false
  else (List.range xs.length).allM fun i => do return eq (← read xs i) (← read ys i)

/-- Equality of two values of a kind that is compared. -/
def equal (l r : Value) : Guarded Bool :=
  match l, r with
  | .vector xs, .vector ys => agree Binary64.eq xs ys
  | .pointVector ps, .pointVector qs => agree Point.equal ps qs
  | .matrix m, .matrix n =>
    if m.rows = n.rows && m.cols = n.cols then agree Binary64.eq m.data n.data else return false
  | l, r => return l.equal Kernel.plainComparison r

/-- The kernels of `==` and `!=`, by what they make of equality. -/
def equality (f : Bool → Bool) (l r : Value) : Guarded Reply :=
  if l.kind = r.kind && Kernel.equatable l.kind then do give (.bool (f (← equal l r)))
  else reply none

/-- The kernel of an operator. -/
def kernel (limit : Nat) (op : Operator) (l r : Value) : Guarded Reply :=
  match op with
  | .equals => equality id l r
  | .notEquals => equality not l r
  | .generate => generate l r
  | .interval => interval limit l r
  | .plus => plus l r
  | .minus => minus l r
  | .times => times l r
  | .divide => divide l r
  | .modulo => modulo l r
  | .power => power limit l r
  | op => reply (op.kernel l r)

end Guarded

end Reckoner
