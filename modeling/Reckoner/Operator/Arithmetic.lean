import Reckoner.Number.Function
import Reckoner.Operator.Integer
import Reckoner.Value.Matrix

/-!
# Arithmetic kernels

For each arithmetic operator, what it computes for a pair of operands of the right types. Types
are matched exactly: no kernel converts an operand to make another one apply. A kernel answers
`none` for pairs it does not know.
-/

namespace Reckoner

/-- What a kernel says about a pair of operands: nothing, a value or an error. -/
abbrev Answer := Option (Except Error Value)

/-- The largest length that replication, intervals and string repetition build. -/
def maxCollectionLength : Nat := Nat.pow 2 24

namespace Kernel

/-- The shape of a vector, as errors show it. -/
def vectorShape (xs : List Binary64) : Text := "vector[" ++ Text.ofNat xs.length ++ "]"

/-- Element by element, for vectors of equal length. -/
def zipVectors (op : Text) (f : Binary64 → Binary64 → Binary64) (xs ys : List Binary64) :
    Except Error Value :=
  if xs.length = ys.length then .ok (.vector (xs.zipWith f ys))
  else .error (.shapes op (vectorShape xs) (some (vectorShape ys)))

/-- A matrix, if the shapes fitted. -/
def fitted (op : Text) (left right : Text) (m : Option Matrix) : Except Error Value :=
  match m with
  | some m => .ok (.matrix m)
  | none => .error (.shapes op left (some right))

/-- A vector, if the shapes fitted. -/
def fittedVector (op : Text) (left right : Text) (v : Option (List Binary64)) :
    Except Error Value :=
  match v with
  | some v => .ok (.vector v)
  | none => .error (.shapes op left (some right))

/-- Element by element, for matrices of the same shape. -/
def zipMatrices (op : Text) (f : Binary64 → Binary64 → Binary64) (m n : Matrix) :
    Except Error Value :=
  fitted op m.shape n.shape (m.zip? f n)

/-- The kernels that `+` and `-` share: numbers, vectors and matrices, element by element. -/
def additive (op : Text) (f : Binary64 → Binary64 → Binary64) : Value → Value → Answer
  | .real x, .real y => some (.ok (.real (f x y)))
  | .real x, .vector ys => some (.ok (.vector (ys.map (f x))))
  | .real x, .matrix n => some (.ok (.matrix (n.map (f x))))
  | .point p, .point q => some (.ok (.point ⟨f p.x q.x, f p.y q.y⟩))
  | .vector xs, .real y => some (.ok (.vector (xs.map (f · y))))
  | .vector xs, .vector ys => some (zipVectors op f xs ys)
  | .matrix m, .real y => some (.ok (.matrix (m.map (f · y))))
  | .matrix m, .matrix n => some (zipMatrices op f m n)
  | _, _ => none

/-- Shifts every point by `d` times `sign`. -/
def translate (ps : List Point) (d : Point) (sign : Binary64) : List Point :=
  ps.map fun p => ⟨p.x + sign * d.x, p.y + sign * d.y⟩

/-- The kernel of `+`. Beside what it shares with `-`, it joins texts, shifts points, and adds a
span to an instant in either order. -/
def plus : Value → Value → Answer
  | .int l, .int r => some (Integer.add l r)
  | .text s, .text t => some (.ok (.text (s ++ t)))
  | .pointVector ps, .point d => some (.ok (.pointVector (translate ps d Binary64.one)))
  | .dateTime t, .timeSpan d => some (.ok (.dateTime (t.add d)))
  | .timeSpan d, .dateTime t => some (.ok (.dateTime (t.add d)))
  | .timeSpan a, .timeSpan b => some (.ok (.timeSpan (a + b)))
  | l, r => additive "+" Binary64.add l r

/-- The kernel of `-`. Beside what it shares with `+`, it shifts points back, takes a span from an
instant, and gives the span between two instants. -/
def minus : Value → Value → Answer
  | .int l, .int r => some (Integer.sub l r)
  | .pointVector ps, .point d => some (.ok (.pointVector (translate ps d Binary64.one.neg)))
  | .dateTime t, .timeSpan d => some (.ok (.dateTime (t.add (-d))))
  | .dateTime t, .dateTime u => some (.ok (.timeSpan (t.sub u)))
  | .timeSpan a, .timeSpan b => some (.ok (.timeSpan (a - b)))
  | l, r => additive "-" Binary64.sub l r

/-- A span times or divided by a factor, truncated toward zero. -/
def scaleSpan (x : Binary64) : Value := .timeSpan x.truncate

/-- The nanoseconds of a span as a real. -/
def spanReal (d : Int64) : Binary64 := Binary64.ofInt d.toInt

/-- Whether a string of some length would be too long, repeated `n` times. The count is compared
with the greatest one, as the product may not fit into 64 bits. -/
def tooLong (length : Nat) (n : Int64) : Bool :=
  0 < length && (maxCollectionLength / length : Nat) < n.toInt

/-- A string repeated, if the result is not too long. -/
def repeatText (s : Text) (n : Int64) : Except Error Value :=
  if n < 0 || tooLong s.length n then .error (.outsideDomain (some (.int n)) 2 "*")
  else .ok (.text (if s.isEmpty then [] else s.times n.toInt.toNat))

/-- The kernel of `*`: products of numbers with numbers, points, vectors, matrices and spans, the
products of linear algebra, and a text repeated. -/
def times : Value → Value → Answer
  | .int l, .int r => some (Integer.mul l r)
  | .text s, .int n => some (repeatText s n)
  | .real x, .real y => some (.ok (.real (x * y)))
  | .real x, .point q => some (.ok (.point ⟨x * q.x, x * q.y⟩))
  | .real x, .vector ys => some (.ok (.vector (ys.map (x * ·))))
  | .real x, .matrix n => some (.ok (.matrix (n.map (x * ·))))
  | .real x, .timeSpan d => some (.ok (scaleSpan (x * spanReal d)))
  | .point p, .real y => some (.ok (.point ⟨p.x * y, p.y * y⟩))
  | .vector xs, .real y => some (.ok (.vector (xs.map (· * y))))
  | .vector xs, .vector ys => some <|
    if xs.length = ys.length then .ok (.real (dotProduct Binary64.zero xs ys))
    else .error (.shapes "*" (vectorShape xs) (some (vectorShape ys)))
  | .vector xs, .matrix n => some <|
    fittedVector "*" (vectorShape xs) n.shape (Matrix.vectorMul? xs n)
  | .matrix m, .real y => some (.ok (.matrix (m.map (· * y))))
  | .matrix m, .vector ys => some <|
    fittedVector "*" m.shape (vectorShape ys) (m.mulVector? ys)
  | .matrix m, .matrix n => some (fitted "*" m.shape n.shape (m.mul? n))
  | .timeSpan d, .real y => some (.ok (scaleSpan (spanReal d * y)))
  | _, _ => none

/-- The quotient of two reals; zero by zero and infinity by infinity are refused. -/
def divideReals (x y : Binary64) : Except Error Value :=
  if x.isZero && y.isZero then .error (.outsideDomain (some (.real y)) 2 "/")
  else if x.isInfinite && y.isInfinite then .error (.outsideDomain (some (.real x)) 1 "/")
  else .ok (.real (x / y))

/-- The kernel of `/`. To divide by a matrix is to multiply by its inverse, and two spans have a
real quotient. -/
def divide : Value → Value → Answer
  | .int l, .int r => some (Integer.div l r)
  | .real x, .real y => some (divideReals x y)
  | .point p, .real y => some (.ok (.point ⟨p.x / y, p.y / y⟩))
  | .vector xs, .real y => some (.ok (.vector (xs.map (· / y))))
  | .vector xs, .matrix n => some do
    let inv ← n.inverse
    fittedVector "/" (vectorShape xs) inv.shape (Matrix.vectorMul? xs inv)
  | .matrix m, .real y => some (.ok (.matrix (m.map (· / y))))
  | .matrix m, .matrix n => some do
    let inv ← n.inverse
    fitted "/" m.shape inv.shape (m.mul? inv)
  | .timeSpan d, .real y => some (.ok (scaleSpan (spanReal d / y)))
  | .timeSpan a, .timeSpan b => some <|
    if b = 0 then .error (.outsideDomain (some (.timeSpan b)) 2 "/")
    else .ok (.real (spanReal a / spanReal b))
  | _, _ => none

/-- The kernel of `%`, which has the sign of the left operand. -/
def modulo : Value → Value → Answer
  | .int l, .int r => some (Integer.mod l r)
  | .real x, .real y => some <|
    if y.isZero then .error (.outsideDomain (some (.real y)) 2 "%") else .ok (.real (x.mod y))
  | _, _ => none

/-- A real power. A NaN that comes from numbers means a negative base with a broken exponent. -/
def powerReals (x y : Binary64) : Except Error Value :=
  let z := x.pow y
  if z.isNaN && !x.isNaN && !y.isNaN then .error (.outsideDomain (some (.real x)) 1 "^")
  else .ok (.real z)

/-- An integer power; a negative exponent gives a real. -/
def powerInts (l r : Int64) : Except Error Value :=
  if r < 0 then .ok (.real ((Binary64.ofInt l.toInt).pow (Binary64.ofInt r.toInt)))
  else Integer.pow l r

/-- The kernel of `^`, element by element for vectors and matrices. -/
def power : Value → Value → Answer
  | .int l, .int r => some (powerInts l r)
  | .real x, .real y => some (powerReals x y)
  | .vector xs, .real y => some (.ok (.vector (xs.map (·.pow y))))
  | .vector xs, .vector ys => some (zipVectors "^" Binary64.pow xs ys)
  | .matrix m, .real y => some (.ok (.matrix (m.map (·.pow y))))
  | .matrix m, .matrix n => some (zipMatrices "^" Binary64.pow m n)
  | _, _ => none

end Kernel

end Reckoner
