import Reckoner.Proofs.WellFormed
import Reckoner.Value.Equality

/-!
# Equality is an equivalence

Equality of values is put together from the equality of doubles, which a NaN does not have with
itself, the instants of points in time, the identity of contexts, and the items of sequences. What
it says of two values, given what it says of their items, is `Value.Alike`; the laws are read off
there, one kind of value at a time, and pass to sequences by induction on the value.

So equality is symmetric and transitive, and a value is equal to itself unless a NaN is in it. What
contexts hold does not count, since a context is only looked at as a whole.

User-defined objects are left out: the host decides what they hold.
-/

namespace Reckoner

/-! ### Doubles -/

namespace Binary64

variable {x y z : Binary64}

/-- What number a double stands for, an infinity with its sign; none if it is a NaN. -/
def number? (x : Binary64) : Option (Bool ⊕ Int) :=
  match x.classify with
  | .nan => none
  | .infinite negative => some (.inl negative)
  | .finite negative units => some (.inr (signed negative units))

/-- Doubles are equal if they stand for one number. -/
theorem eq_iff : x.eq y = true ↔ ∃ n, x.number? = some n ∧ y.number? = some n := by
  unfold eq number?
  cases hx : x.classify <;> cases hy : y.classify <;> simp [eq_comm]

theorem eq_symm (hxy : x.eq y = true) : y.eq x = true := by
  obtain ⟨n, hx, hy⟩ := eq_iff.mp hxy
  exact eq_iff.mpr ⟨n, hy, hx⟩

theorem eq_trans (hxy : x.eq y = true) (hyz : y.eq z = true) : x.eq z = true := by
  obtain ⟨n, hx, hy⟩ := eq_iff.mp hxy
  obtain ⟨m, hy', hz⟩ := eq_iff.mp hyz
  obtain rfl : n = m := Option.some_inj.mp (hy.symm.trans hy')
  exact eq_iff.mpr ⟨n, hx, hz⟩

/-- A double equals itself unless it is a NaN. -/
theorem eq_self_iff : x.eq x = true ↔ x.isNaN = false := by
  rw [eq_iff]
  unfold number? isNaN
  cases x.classify <;> simp

end Binary64

namespace Point

variable {p q r : Point}

theorem equal_iff : p.equal q = true ↔ p.x.eq q.x = true ∧ p.y.eq q.y = true := by
  rw [equal, Bool.and_eq_true]

theorem equal_symm (hpq : p.equal q = true) : q.equal p = true :=
  equal_iff.mpr ((equal_iff.mp hpq).imp Binary64.eq_symm Binary64.eq_symm)

theorem equal_trans (hpq : p.equal q = true) (hqr : q.equal r = true) : p.equal r = true := by
  obtain ⟨hx, hy⟩ := equal_iff.mp hpq
  obtain ⟨hx', hy'⟩ := equal_iff.mp hqr
  exact equal_iff.mpr ⟨Binary64.eq_trans hx hx', Binary64.eq_trans hy hy'⟩

theorem equal_self_iff : p.equal p = true ↔ ∀ x ∈ [p.x, p.y], x.isNaN = false := by
  simp [equal_iff, Binary64.eq_self_iff]

end Point

/-! ### Lists -/

section Lists

variable {α : Type} {R : α → α → Prop} {xs ys zs : List α}

/-- Where the laws hold of the items of the first list, they hold of the list. -/
theorem forall₂_symm (hR : ∀ x ∈ xs, ∀ y, R x y → R y x) (hxy : List.Forall₂ R xs ys) :
    List.Forall₂ R ys xs := by
  induction hxy with
  | nil => exact .nil
  | @cons x y xs ys h _ ih =>
    exact .cons (hR x (.head _) y h) (ih fun x hx => hR x (.tail _ hx))

theorem forall₂_trans (hR : ∀ x ∈ xs, ∀ y z, R x y → R y z → R x z)
    (hxy : List.Forall₂ R xs ys) (hyz : List.Forall₂ R ys zs) : List.Forall₂ R xs zs := by
  induction hxy generalizing zs with
  | nil => exact hyz
  | @cons x y xs ys h _ ih =>
    cases hyz with
    | cons h' hrest =>
      exact .cons (hR x (.head _) y _ h h') (ih (fun x hx => hR x (.tail _ hx)) hrest)

end Lists

/-- Comparing one by one is comparing pairs, for lists of one length. -/
theorem equalReals_iff {xs ys : List Binary64} :
    equalReals xs ys = true ↔ List.Forall₂ (fun x y => x.eq y = true) xs ys := by
  induction xs generalizing ys with
  | nil => cases ys <;> simp [equalReals]
  | cons x xs ih => cases ys <;> simp [equalReals, ih]

theorem equalPoints_iff {ps qs : List Point} :
    equalPoints ps qs = true ↔ List.Forall₂ (fun p q => p.equal q = true) ps qs := by
  induction ps generalizing qs with
  | nil => cases qs <;> simp [equalPoints]
  | cons p ps ih => cases qs <;> simp [equalPoints, ih]

theorem reals_self_iff {xs : List Binary64} :
    List.Forall₂ (fun x y => x.eq y = true) xs xs ↔ ∀ x ∈ xs, x.isNaN = false := by
  simp [List.forall₂_same, Binary64.eq_self_iff]

theorem points_self_iff {ps : List Point} :
    List.Forall₂ (fun p q => p.equal q = true) ps ps ↔
      ∀ x ∈ ps.flatMap (fun p => [p.x, p.y]), x.isNaN = false := by
  rw [List.forall₂_same]
  simp only [Point.equal_self_iff, List.mem_flatMap]
  exact ⟨fun h x ⟨p, hp, hx⟩ => h p hp x hx, fun h p hp x hx => h x ⟨p, hp, hx⟩⟩

namespace Value

theorem equalItems_iff {cmp : Comparison} {as bs : List Value} :
    equalItems cmp as bs = true ↔ List.Forall₂ (fun a b => a.equal cmp b = true) as bs := by
  induction as generalizing bs with
  | nil => cases bs <;> simp [equalItems]
  | cons a as ih => cases bs <;> simp [equalItems, ih]

/-! ### What equality says -/

/-- The value is no user-defined object, and none is in it. -/
def Objectless (v : Value) : Prop := v.Every fun w => w.kind ≠ .object

/-- The doubles that a value consists of, apart from its items. -/
def doubles : Value → List Binary64
  | real x => [x]
  | point p => [p.x, p.y]
  | vector xs => xs
  | pointVector ps => ps.flatMap fun p => [p.x, p.y]
  | matrix m => m.data
  | _ => []

/-- No NaN is in the value, not counting what contexts hold. -/
def Numeric (v : Value) : Prop := v.Every fun w => ∀ x ∈ w.doubles, x.isNaN = false

/-- The kind of a value, how long it is or what its shape is, and the kind of the items of an
array. -/
def form : Value → Kind × List Nat × Option Kind
  | text s => (.text, [s.length], none)
  | vector xs => (.vector, [xs.length], none)
  | pointVector ps => (.pointVector, [ps.length], none)
  | matrix m => (.matrix, [m.rows, m.cols, m.data.length], none)
  | array elem items => (.array, [items.length], some elem)
  | list items => (.list, [items.length], none)
  | v => (v.kind, [], none)

/-- The values are equal if `R` says so of their items. -/
inductive Alike (R : Value → Value → Prop) : Value → Value → Prop where
  | int (n : Int64) : Alike R (.int n) (.int n)
  /-- Reals are compared as numbers, so NaN is not even equal to itself. -/
  | real {x y : Binary64} : x.eq y = true → Alike R (.real x) (.real y)
  | bool (b : Bool) : Alike R (.bool b) (.bool b)
  | text (s : Text) : Alike R (.text s) (.text s)
  /-- Points in time are equal if the instants are, in whatever zones. -/
  | dateTime {t u : DateTime} : t.seconds = u.seconds → t.nanos = u.nanos →
    Alike R (.dateTime t) (.dateTime u)
  | timeSpan (nanos : Int64) : Alike R (.timeSpan nanos) (.timeSpan nanos)
  /-- Points are compared by their coordinates. -/
  | point {p q : Point} : p.equal q = true → Alike R (.point p) (.point q)
  | vector {xs ys : List Binary64} : List.Forall₂ (fun x y => x.eq y = true) xs ys →
    Alike R (.vector xs) (.vector ys)
  | pointVector {ps qs : List Point} : List.Forall₂ (fun p q => p.equal q = true) ps qs →
    Alike R (.pointVector ps) (.pointVector qs)
  /-- Matrices have the same shape and equal elements. -/
  | matrix {rows cols : Nat} {xs ys : List Binary64} :
    List.Forall₂ (fun x y => x.eq y = true) xs ys →
    Alike R (.matrix ⟨rows, cols, xs⟩) (.matrix ⟨rows, cols, ys⟩)
  /-- Arrays have the same element kind and equal items. -/
  | array (elem : Kind) {as bs : List Value} : List.Forall₂ R as bs →
    Alike R (.array elem as) (.array elem bs)
  /-- Lists have equal items. -/
  | list {as bs : List Value} : List.Forall₂ R as bs → Alike R (.list as) (.list bs)
  /-- A context is equal to itself alone. -/
  | context (c : ContextId) : Alike R (.context c) (.context c)

variable {h : Heap} {a b c : Value} {R : Value → Value → Prop}

/-- **What equality says of two values**, if the first is no object. -/
theorem equal_iff_alike (ha : a.kind ≠ .object) :
    h.equal a b = true ↔ Alike (fun v w => h.equal v w = true) a b := by
  constructor
  · intro hab
    unfold Heap.equal Value.equal at hab
    split at hab
    · next n m => exact beq_iff_eq.mp hab ▸ .int n
    · exact .real hab
    · next b b' => exact beq_iff_eq.mp hab ▸ .bool b
    · next s t => exact beq_iff_eq.mp hab ▸ .text s
    · next t u =>
      obtain ⟨hseconds, hnanos⟩ : t.seconds = u.seconds ∧ t.nanos = u.nanos := by
        simpa [Heap.comparison, DateTime.same] using hab
      exact .dateTime hseconds hnanos
    · next n m => exact beq_iff_eq.mp hab ▸ .timeSpan n
    · exact .point hab
    · exact .vector (equalReals_iff.mp hab)
    · exact .pointVector (equalPoints_iff.mp hab)
    · next m n =>
      obtain ⟨rows, cols, xs⟩ := m
      obtain ⟨rows', cols', ys⟩ := n
      obtain ⟨⟨rfl, rfl⟩, hdata⟩ : (rows = rows' ∧ cols = cols') ∧ equalReals xs ys = true := by
        simpa [Matrix.equal] using hab
      exact .matrix (equalReals_iff.mp hdata)
    · next e as f bs =>
      obtain ⟨rfl, hitems⟩ : e = f ∧ equalItems h.comparison as bs = true := by simpa using hab
      exact .array e (equalItems_iff.mp hitems)
    · exact .list (equalItems_iff.mp hab)
    · next c d =>
      obtain rfl : c = d := beq_iff_eq.mp hab
      exact .context c
    · exact absurd rfl ha
    · exact absurd rfl ha
    · cases hab
  · intro hab
    unfold Heap.equal
    cases hab with
    | int n => exact beq_self_eq_true n
    | bool b => exact beq_self_eq_true b
    | text s => exact beq_self_eq_true s
    | timeSpan n => exact beq_self_eq_true n
    | context c => exact beq_self_eq_true c
    | real hxy => exact hxy
    | point hpq => exact hpq
    | dateTime hseconds hnanos =>
      simp [Value.equal, Heap.comparison, DateTime.same, hseconds, hnanos]
    | vector hxs => exact equalReals_iff.mpr hxs
    | pointVector hps => exact equalPoints_iff.mpr hps
    | matrix hdata => simp [Value.equal, Matrix.equal, equalReals_iff.mpr hdata]
    | array e hitems => simpa [Value.equal] using equalItems_iff.mpr hitems
    | list hitems => exact equalItems_iff.mpr hitems

/-! ### One step -/

namespace Alike

/-- Values that are equal have one form. -/
theorem form (hab : Alike R a b) : a.form = b.form := by
  cases hab with
  | vector hxs => simp [Value.form, hxs.length_eq]
  | pointVector hps => simp [Value.form, hps.length_eq]
  | matrix hdata => simp [Value.form, hdata.length_eq]
  | array e hitems => simp [Value.form, hitems.length_eq]
  | list hitems => simp [Value.form, hitems.length_eq]
  | _ => rfl

theorem kind (hab : Alike R a b) : a.kind = b.kind := by
  cases hab <;> rfl

theorem symm (hab : Alike R a b)
    (hR : ∀ items, a.items? = some items → ∀ v ∈ items, ∀ w, R v w → R w v) : Alike R b a := by
  cases hab with
  | int n => exact .int n
  | bool b => exact .bool b
  | text s => exact .text s
  | timeSpan n => exact .timeSpan n
  | context c => exact .context c
  | real hxy => exact .real (Binary64.eq_symm hxy)
  | point hpq => exact .point (Point.equal_symm hpq)
  | dateTime hseconds hnanos => exact .dateTime hseconds.symm hnanos.symm
  | vector hxs => exact .vector (forall₂_symm (fun _ _ _ => Binary64.eq_symm) hxs)
  | pointVector hps => exact .pointVector (forall₂_symm (fun _ _ _ => Point.equal_symm) hps)
  | matrix hdata => exact .matrix (forall₂_symm (fun _ _ _ => Binary64.eq_symm) hdata)
  | array e hitems => exact .array e (forall₂_symm (hR _ rfl) hitems)
  | list hitems => exact .list (forall₂_symm (hR _ rfl) hitems)

theorem trans (hab : Alike R a b) (hbc : Alike R b c)
    (hR : ∀ items, a.items? = some items → ∀ v ∈ items, ∀ w u, R v w → R w u → R v u) :
    Alike R a c := by
  cases hab with
  | int n => exact hbc
  | bool b => exact hbc
  | text s => exact hbc
  | timeSpan n => exact hbc
  | context c => exact hbc
  | real hxy =>
    cases hbc with
    | real hyz => exact .real (Binary64.eq_trans hxy hyz)
  | point hpq =>
    cases hbc with
    | point hqr => exact .point (Point.equal_trans hpq hqr)
  | dateTime hseconds hnanos =>
    cases hbc with
    | dateTime hseconds' hnanos' =>
      exact .dateTime (hseconds.trans hseconds') (hnanos.trans hnanos')
  | vector hxs =>
    cases hbc with
    | vector hys => exact .vector (forall₂_trans (fun _ _ _ _ => Binary64.eq_trans) hxs hys)
  | pointVector hps =>
    cases hbc with
    | pointVector hqs =>
      exact .pointVector (forall₂_trans (fun _ _ _ _ => Point.equal_trans) hps hqs)
  | matrix hxs =>
    cases hbc with
    | matrix hys => exact .matrix (forall₂_trans (fun _ _ _ _ => Binary64.eq_trans) hxs hys)
  | array e has =>
    cases hbc with
    | array _ hbs => exact .array e (forall₂_trans (hR _ rfl) has hbs)
  | list has =>
    cases hbc with
    | list hbs => exact .list (forall₂_trans (hR _ rfl) has hbs)

/-- A value is equal to itself if its items are and it has no NaN. -/
theorem self_iff : Alike R a a ↔ a.kind ≠ .object ∧ (∀ x ∈ a.doubles, x.isNaN = false) ∧
    ∀ items, a.items? = some items → ∀ v ∈ items, R v v := by
  constructor
  · intro haa
    refine ⟨fun hobject => ?_, ?_, fun items hitems => ?_⟩
    · cases haa <;> cases hobject
    · cases haa with
      | real h => simpa [doubles] using Binary64.eq_self_iff.mp h
      | point h => exact Point.equal_self_iff.mp h
      | vector h => exact reals_self_iff.mp h
      | pointVector h => exact points_self_iff.mp h
      | matrix h => exact reals_self_iff.mp h
      | _ => exact fun _ hx => by cases hx
    · cases haa with
      | array e h => cases hitems; exact List.forall₂_same.mp h
      | list h => cases hitems; exact List.forall₂_same.mp h
      | _ => cases hitems
  · rintro ⟨hkind, hdoubles, hitems⟩
    cases a with
    | int n => exact .int n
    | bool b => exact .bool b
    | text s => exact .text s
    | dateTime t => exact .dateTime rfl rfl
    | timeSpan n => exact .timeSpan n
    | context c => exact .context c
    | real x => exact .real (Binary64.eq_self_iff.mpr (hdoubles x (.head _)))
    | point p => exact .point (Point.equal_self_iff.mpr hdoubles)
    | vector xs => exact .vector (reals_self_iff.mpr hdoubles)
    | pointVector ps => exact .pointVector (points_self_iff.mpr hdoubles)
    | matrix m => exact .matrix (reals_self_iff.mpr hdoubles)
    | array e items => exact .array e (List.forall₂_same.mpr (hitems items rfl))
    | list items => exact .list (List.forall₂_same.mpr (hitems items rfl))
    | handle t => exact absurd rfl hkind
    | object tag o => exact absurd rfl hkind

end Alike

/-! ### Values of any depth -/

theorem equal_symm (ha : a.Objectless) (hab : h.equal a b = true) : h.equal b a = true := by
  induction ha generalizing b with
  | intro hp _ ih =>
    have halike := (equal_iff_alike hp).mp hab
    refine (equal_iff_alike (halike.kind ▸ hp)).mpr (halike.symm ?_)
    exact fun items hitems v hv w => ih items hitems v hv

theorem equal_trans (ha : a.Objectless) (hab : h.equal a b = true) (hbc : h.equal b c = true) :
    h.equal a c = true := by
  induction ha generalizing b c with
  | intro hp _ ih =>
    have halike := (equal_iff_alike hp).mp hab
    have halike' := (equal_iff_alike (halike.kind ▸ hp)).mp hbc
    refine (equal_iff_alike hp).mpr (halike.trans halike' ?_)
    exact fun items hitems v hv w u => ih items hitems v hv

theorem equal_self_iff (ha : a.Objectless) : h.equal a a = true ↔ a.Numeric := by
  induction ha with
  | intro hp _ ih =>
    rw [equal_iff_alike hp, Alike.self_iff]
    constructor
    · rintro ⟨-, hdoubles, hitems⟩
      exact .intro hdoubles fun items hi v hv => (ih items hi v hv).mp (hitems items hi v hv)
    · intro hnumeric
      exact ⟨hp, hnumeric.self, fun items hi v hv =>
        (ih items hi v hv).mpr (hnumeric.item hi hv)⟩

end Value

/-! ### What may be no value -/

namespace Heap

/-- **Equality is an equivalence on values** without user-defined objects. It is symmetric and
transitive; a value equals itself if and only if no NaN is in it, where contexts are not looked
into; and equal values have the same kind, the same length or shape, and the same kind of items. -/
theorem equal_equivalence (h : Heap) (a b c : Option Value) (ha : ∀ v ∈ a, v.Objectless) :
    (h.equal? a b = true → h.equal? b a = true) ∧
    (h.equal? a b = true → h.equal? b c = true → h.equal? a c = true) ∧
    (h.equal? a a = true ↔ ∀ v ∈ a, v.Numeric) ∧
    (h.equal? a b = true → a.map Value.form = b.map Value.form) := by
  cases a with
  | none =>
    have hnone : ∀ b, h.equal? none b = true → b = none := fun b hb => by
      cases b
      · rfl
      · cases hb
    refine ⟨fun hab => ?_, fun hab hbc => ?_, ⟨fun _ v hv => (by cases hv), fun _ => rfl⟩,
      fun hab => ?_⟩
    · rw [hnone b hab]; rfl
    · rwa [hnone b hab] at hbc
    · rw [hnone b hab]
  | some v =>
    have hv : v.Objectless := ha v rfl
    have hsome : ∀ b, h.equal? (some v) b = true → ∃ w, b = some w ∧ h.equal v w = true :=
      fun b hb => by
        cases b with
        | none => cases hb
        | some w => exact ⟨w, rfl, hb⟩
    refine ⟨fun hab => ?_, fun hab hbc => ?_, ?_, fun hab => ?_⟩
    · obtain ⟨w, rfl, hvw⟩ := hsome b hab
      exact Value.equal_symm hv hvw
    · obtain ⟨w, rfl, hvw⟩ := hsome b hab
      cases c with
      | none => cases hbc
      | some u => exact Value.equal_trans hv hvw hbc
    · refine (Value.equal_self_iff hv).trans ⟨fun hn u hu => ?_, fun hn => hn v rfl⟩
      cases hu
      exact hn
    · obtain ⟨w, rfl, hvw⟩ := hsome b hab
      exact congrArg some ((Value.equal_iff_alike hv.self).mp hvw).form

end Heap

namespace Value

/-- A list of a zero and an array of an instant. -/
def plainPair : Value :=
  .list [.real .zero, .array .dateTime [.dateTime ⟨3600, 0, .utc⟩]]

/-- A list of the other zero and an array of the same instant in another zone. -/
def otherPair : Value :=
  .list [.real (.ofSign true 0), .array .dateTime [.dateTime ⟨3600, 0, .offset 3600⟩]]

/-- The two lists are equal, whichever comes first, and so are their forms. -/
theorem otherPair_equivalent : plainPair.Objectless ∧
    Heap.empty.equal? (some plainPair) (some otherPair) = true ∧
    Heap.empty.equal? (some otherPair) (some plainPair) = true ∧
    Heap.empty.equal? (some plainPair) (some plainPair) = true ∧
    plainPair.form = otherPair.form := by
  have hobjectless : plainPair.Objectless := by
    refine every_list nofun ?_
    simp only [List.forall_mem_cons]
    refine ⟨every_of_none rfl nofun, every_array nofun ?_, nofun⟩
    simp only [List.forall_mem_cons]
    exact ⟨every_of_none rfl nofun, nofun⟩
  have hequal : Heap.empty.equal? (some plainPair) (some otherPair) = true := by decide +kernel
  obtain ⟨hsymm, htrans, -, hform⟩ := Heap.equal_equivalence Heap.empty (some plainPair)
    (some otherPair) (some plainPair) fun v hv => Option.mem_some_iff.mp hv ▸ hobjectless
  exact ⟨hobjectless, hequal, hsymm hequal, htrans hequal (hsymm hequal),
    Option.some_inj.mp (hform hequal)⟩

end Value

end Reckoner
