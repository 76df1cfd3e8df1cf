import Reckoner.Operator.Arithmetic
import Reckoner.Value.Equality

/-!
# Comparison and logic kernels

Equality is defined between two values of one scalar kind, vectors and matrices included; order
between two numbers, strings, points in time or spans of one kind. A NaN compares as false under
every order.
-/

namespace Reckoner

namespace Kernel

/-- The kinds whose values `==` and `!=` compare. -/
def equatable : Kind → Bool
  | .int | .real | .bool | .text | .dateTime | .timeSpan | .point | .vector | .pointVector
  | .matrix => true
  | _ => false

/-- The comparison of equatable values, which contain no contexts and no objects. -/
def plainComparison : Comparison := ⟨DateTime.same, fun c d => c == d, fun o p => o == p⟩

/-- The kernel of `==`: two operands of one kind that has an equality of its own. -/
def equals (l r : Value) : Answer :=
  if l.kind = r.kind && equatable l.kind then some (.ok (.bool (l.equal plainComparison r)))
  else none

/-- The kernel of `!=`, for the same operands as that of `==`. -/
def notEquals (l r : Value) : Answer :=
  if l.kind = r.kind && equatable l.kind then some (.ok (.bool (!l.equal plainComparison r)))
  else none

/-- The order of two values; no order at all where a NaN is involved. -/
inductive Order where
  /-- One comes first, or they are equal. -/
  | known (o : Ordering)
  /-- They have no order. -/
  | unordered

/-- The order of two reals, which a NaN does not have. -/
def orderReals (x y : Binary64) : Order :=
  if x.isNaN || y.isNaN then .unordered
  else .known (if x.lt y then .lt else if y.lt x then .gt else .eq)

/-- The order of two integers. -/
def orderInts (a b : Int64) : Ordering := compare a.toInt b.toInt

/-- The order of two values of an ordered kind. -/
def order? : Value → Value → Option Order
  | .int a, .int b => some (.known (orderInts a b))
  | .real x, .real y => some (orderReals x y)
  | .text s, .text t => some (.known (compare s t))
  | .dateTime t, .dateTime u => some (.known (t.order u))
  | .timeSpan a, .timeSpan b => some (.known (orderInts a b))
  | _, _ => none

/-- A comparison kernel from a predicate on the order. -/
def ordered (holds : Ordering → Bool) (l r : Value) : Answer :=
  (order? l r).map fun
    | .known o => .ok (.bool (holds o))
    | .unordered => .ok (.bool false)

/-- The kernels of `&&` and `||`, which take truth values alone. -/
def logical (f : Bool → Bool → Bool) : Value → Value → Answer
  | .bool a, .bool b => some (.ok (.bool (f a b)))
  | _, _ => none

end Kernel

end Reckoner
