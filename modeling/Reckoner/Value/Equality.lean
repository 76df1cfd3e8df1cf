import Reckoner.Heap

/-!
# Equality of values

Values of different kinds are never equal: an integer differs from the real of the same size.
Numbers are compared by value, points in time by instant, contexts by identity, and sequences
item by item; an array also by its element kind.

User-defined objects are equal if they are the same or hold the same data, where points in time
have to agree in their zones too and contexts are compared by what they hold.
-/

namespace Reckoner

/-- How the parts are compared that values do not decide by themselves. -/
structure Comparison where
  dateTimes : DateTime → DateTime → Bool
  contexts : ContextId → ContextId → Bool
  objects : ObjectId → ObjectId → Bool

/-- Equality of lists of doubles, by value. -/
def equalReals : List Binary64 → List Binary64 → Bool
  | [], [] => true
  | x :: xs, y :: ys => x.eq y && equalReals xs ys
  | _, _ => false

/-- Whether both coordinates are equal as numbers. -/
def Point.equal (p q : Point) : Bool := p.x.eq q.x && p.y.eq q.y

/-- Equality of lists of points, by value. -/
def equalPoints : List Point → List Point → Bool
  | [], [] => true
  | p :: ps, q :: qs => p.equal q && equalPoints ps qs
  | _, _ => false

/-- Whether the shapes are the same and all elements are equal as numbers. -/
def Matrix.equal (m n : Matrix) : Bool :=
  m.rows == n.rows && m.cols == n.cols && equalReals m.data n.data

mutual

/-- Equality of values under a comparison. -/
def Value.equal (cmp : Comparison) : Value → Value → Bool
  | .int a, .int b => a == b
  | .real x, .real y => x.eq y
  | .bool a, .bool b => a == b
  | .text s, .text t => s == t
  | .dateTime t, .dateTime u => cmp.dateTimes t u
  | .timeSpan a, .timeSpan b => a == b
  | .point p, .point q => p.equal q
  | .vector xs, .vector ys => equalReals xs ys
  | .pointVector ps, .pointVector qs => equalPoints ps qs
  | .matrix m, .matrix n => m.equal n
  | .array e as, .array f bs => e == f && Value.equalItems cmp as bs
  | .list as, .list bs => Value.equalItems cmp as bs
  | .context c, .context d => cmp.contexts c d
  | .handle _, .handle _ => true
  | .object tag o, .object tag' o' => tag == tag' && cmp.objects o o'
  | _, _ => false

/-- Equality of items, one by one. -/
def Value.equalItems (cmp : Comparison) : List Value → List Value → Bool
  | [], [] => true
  | a :: as, b :: bs => Value.equal cmp a b && Value.equalItems cmp as bs
  | _, _ => false

end

namespace Heap

/-- Equality of what fields hold. -/
def equalField (cmp : Comparison) : Option Datum → Option Datum → Bool
  | none, none => true
  | some (.color c), some (.color d) => c == d
  | some (.value v), some (.value w) => v.equal cmp w
  | _, _ => false

/-- Equality of lists, one by one. -/
def equalAll {α : Type} (eq : α → α → Bool) : List α → List α → Bool
  | [], [] => true
  | a :: as, b :: bs => eq a b && equalAll eq as bs
  | _, _ => false

/-- The comparison of data at most `fuel` steps behind the numbers of contexts and objects.
Whatever is further away is on a cycle, where no difference can be found any more. -/
def dataComparison (h : Heap) : (fuel : Nat) → Comparison
  | 0 => ⟨fun _ _ => true, fun _ _ => true, fun _ _ => true⟩
  | fuel + 1 =>
    let cmp := dataComparison h fuel
    let parents : Option ContextId → Option ContextId → Bool
      | none, none => true
      | some c, some d => c == d || cmp.contexts c d
      | _, _ => false
    { dateTimes := fun t u => t == u
      contexts := fun c d => c == d ||
        (parents (h.context c).parent (h.context d).parent
          && (h.context c).listeners.isEmpty && (h.context d).listeners.isEmpty
          && equalAll (fun (n, v) (m, w) => n == m && v.equal
              { cmp with dateTimes := fun t u => t == u } w)
            (h.context c).vars (h.context d).vars)
      objects := fun o p => o == p ||
        equalAll (fun (f g : Field) =>
            equalField { cmp with dateTimes := fun t u => t == u } f.value g.value)
          (h.object o).fields (h.object p).fields }

/-- The equality of the language. -/
def comparison (h : Heap) : Comparison where
  dateTimes := DateTime.same
  contexts := fun c d => c == d
  objects := (h.dataComparison (h.contexts.size + h.objects.size + 1)).objects

/-- Whether two values are the same value. -/
def equal (h : Heap) (v w : Value) : Bool := v.equal h.comparison w

/-- Equality of what may be no value. -/
def equal? (h : Heap) : Option Value → Option Value → Bool
  | none, none => true
  | some v, some w => h.equal v w
  | _, _ => false

end Heap

end Reckoner
