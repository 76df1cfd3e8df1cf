import Reckoner.Proofs.JoinedTexts
import Reckoner.Proofs.Kernels
import Reckoner.Proofs.Snapshot

/-!
# Comparisons agree

Equality and order are computed apart from each other, and each of the six comparisons goes
through sequences on its own. Yet for two values of one ordered kind all six read their answer off
the order of the two, equality included, and for values of different kinds none of them has an
answer.

From there it is an induction on the operands: which items are compared, and whether there is a
comparison for them, does not depend on the operator, so that the six sequences of results are
built alike.
-/

namespace Reckoner

namespace Value

/-- The value is of one of the kinds any two values of which are equal or in order. -/
inductive Ordered : Value → Prop where
  | int (n : Int64) : Ordered (.int n)
  | text (s : Text) : Ordered (.text s)
  | dateTime (t : DateTime) : Ordered (.dateTime t)
  | timeSpan (nanos : Int64) : Ordered (.timeSpan nanos)

/-- The value is of an ordered kind, or a sequence of such values, nested to any depth. -/
def Comparable (v : Value) : Prop := v.Every fun w => w.Ordered ∨ w.items?.isSome

end Value

/-! ### Orders -/

instance : Std.TransCmp Kernel.orderInts := inferInstanceAs (Std.TransCmp (compareOn Int64.toInt))

instance : Std.LawfulEqCmp Kernel.orderInts where
  compare_self {a} := @Std.ReflCmp.compare_self _ (compareOn Int64.toInt) _ a
  eq_of_compare h := Int64.toInt_inj.mp (Std.LawfulEqCmp.eq_of_compare h)

instance : Std.TransCmp DateTime.order :=
  inferInstanceAs
    (Std.TransCmp (compareLex (compareOn DateTime.seconds) (compareOn DateTime.nanos)))

namespace Operator

variable {names : Names} {op : Operator} {l r : Value} {o : Ordering}

/-- The operators that compare. -/
def comparisons : List Operator := [equals, notEquals, less, greater, lessEqual, greaterEqual]

/-- The comparison that says of exchanged operands what the operator says of the operands. -/
def mirrored : Operator → Operator
  | less => greater
  | greater => less
  | lessEqual => greaterEqual
  | greaterEqual => lessEqual
  | op => op

/-- What the comparisons say of one pair of values. -/
structure Trichotomy (holds : Operator → Bool) : Prop where
  /-- Just one of `<`, `==` and `>` holds. -/
  one : ∃! op, op ∈ [less, equals, greater] ∧ holds op = true
  /-- The mark `<=` stands for `<` or `==`. -/
  lessEqual : holds lessEqual = (holds less || holds equals)
  /-- The mark `>=` stands for `>` or `==`. -/
  greaterEqual : holds greaterEqual = (holds greater || holds equals)
  /-- The mark `!=` denies `==`. -/
  notEquals : holds notEquals = !holds equals

/-- The operators give results of the same shape, with what comparisons say of one pair of values
at every leaf. -/
inductive Consistent : (Operator → Value) → Prop where
  /-- Truth values of one pair of values. -/
  | leaf {holds : Operator → Bool} : Trichotomy holds → Consistent fun op => .bool (holds op)
  /-- Arrays of consistent results, one for each operator. -/
  | array (elem : Kind) {items : List (Operator → Value)} :
    (∀ results ∈ items, Consistent results) →
      Consistent fun op => .array elem (items.map (· op))
  /-- Lists of consistent results, one for each operator. -/
  | list {items : List (Operator → Value)} : (∀ results ∈ items, Consistent results) →
      Consistent fun op => .list (items.map (· op))

/-- All comparisons fail for the operands; or all of them give consistent results, and the
mirrored ones give the same for the operands exchanged. -/
def Agree (names : Names) (l r : Value) : Prop :=
  (∀ op ∈ comparisons, ∃ e, op.outcome names l r = .error e) ∨
    ∃ results, Consistent results ∧ ∀ op ∈ comparisons,
      op.outcome names l r = .ok (results op) ∧ op.mirrored.outcome names r l = .ok (results op)

/-! ### What an order says -/

/-- What a comparison says of values in the given order. -/
def verdict : Operator → Ordering → Bool
  | equals, o => o.isEq
  | notEquals, o => !o.isEq
  | less, o => o.isLT
  | greater, o => o.isGT
  | lessEqual, o => o.isLE
  | greaterEqual, o => o.isGE
  | _, _ => false

theorem trichotomy_verdict (o : Ordering) : Trichotomy fun op => op.verdict o := by
  refine ⟨?_, by cases o <;> rfl, by cases o <;> rfl, rfl⟩
  cases o with
  | lt => exact ⟨less, by decide, fun op h => by cases op <;> simp_all [verdict]⟩
  | eq => exact ⟨equals, by decide, fun op h => by cases op <;> simp_all [verdict]⟩
  | gt => exact ⟨greater, by decide, fun op h => by cases op <;> simp_all [verdict]⟩

theorem verdict_mirrored (op : Operator) (o : Ordering) :
    op.mirrored.verdict o.swap = op.verdict o := by
  cases op <;> cases o <;> rfl

theorem mirrored_comparison (hop : op ∈ comparisons) : op.mirrored ∈ comparisons := by
  cases op <;> first | decide | exact absurd hop (by decide)

/-! ### The order of two values -/

/-- Where an order decides, equality is what the order says. -/
theorem beq_eq_isEq {α : Type} [BEq α] [LawfulBEq α] {cmp : α → α → Ordering}
    [Std.LawfulEqCmp cmp] (a b : α) : (a == b) = (cmp a b).isEq := by
  rw [Bool.eq_iff_iff, beq_iff_eq, Ordering.isEq_iff_eq_eq, Std.LawfulEqCmp.compare_eq_iff_eq]

theorem same_eq_isEq (t u : DateTime) : t.same u = (t.order u).isEq := by
  rw [DateTime.same, DateTime.order, Ordering.isEq_then, ← beq_eq_isEq, ← beq_eq_isEq]
  rfl

theorem known_swap {α : Type} {cmp : α → α → Ordering} [Std.OrientedCmp cmp] (a b : α) :
    some (Kernel.Order.known (cmp b a)) = some (.known (cmp a b).swap) := by
  rw [← Std.OrientedCmp.eq_swap]

/-- **Values of one ordered kind are in order**, whichever comes first, and equality agrees with
the order. -/
theorem order?_ordered (hl : l.Ordered) (hkind : l.kind = r.kind) :
    ∃ o, Kernel.order? l r = some (.known o) ∧ Kernel.order? r l = some (.known o.swap) ∧
      l.equal Kernel.plainComparison r = o.isEq := by
  cases hl with
  | int a =>
    cases r with
    | int b => exact ⟨Kernel.orderInts a b, rfl, known_swap a b, beq_eq_isEq a b⟩
    | _ => cases hkind
  | text s =>
    cases r with
    | text t => exact ⟨compare s t, rfl, known_swap s t, beq_eq_isEq s t⟩
    | _ => cases hkind
  | dateTime t =>
    cases r with
    | dateTime u => exact ⟨t.order u, rfl, known_swap t u, same_eq_isEq t u⟩
    | _ => cases hkind
  | timeSpan a =>
    cases r with
    | timeSpan b => exact ⟨Kernel.orderInts a b, rfl, known_swap a b, beq_eq_isEq a b⟩
    | _ => cases hkind

/-- Only values of one kind are in order. -/
theorem kind_of_order? {order : Kernel.Order} (h : Kernel.order? l r = some order) :
    l.kind = r.kind := by
  unfold Kernel.order? at h
  split at h <;> first | rfl | cases h

/-- The order of the values of each ordered kind is transitive. -/
theorem order?_trans {x y z : Value} (hx : x.Ordered)
    (hxy : Kernel.order? x y = some (.known .lt)) (hyz : Kernel.order? y z = some (.known .lt)) :
    Kernel.order? x z = some (.known .lt) := by
  have hkind := kind_of_order? hxy
  have hkind' := kind_of_order? hyz
  cases hx <;> cases y <;> cases hkind <;> cases z <;> cases hkind' <;>
    simp only [Kernel.order?, Option.some.injEq, Kernel.Order.known.injEq] at hxy hyz ⊢
  all_goals exact Std.TransCmp.lt_trans hxy hyz

/-! ### Two values -/

/-- For values in order, each comparison has its verdict. -/
theorem kernel_known (hop : op ∈ comparisons) (hl : l.Ordered)
    (horder : Kernel.order? l r = some (.known o))
    (hequal : l.equal Kernel.plainComparison r = o.isEq) :
    op.kernel l r = some (.ok (.bool (op.verdict o))) := by
  have hkind : l.kind = r.kind := kind_of_order? horder
  have hequatable : Kernel.equatable l.kind = true := by cases hl <;> rfl
  cases op <;> first
    | exact absurd hop (by decide)
    | simp [kernel, Kernel.ordered, Kernel.equals, Kernel.notEquals, horder, hkind ▸ hequatable,
        hkind, hequal, verdict]

/-- For values of different kinds, no comparison has a kernel. -/
theorem kernel_kinds (hop : op ∈ comparisons) (hkind : l.kind ≠ r.kind) :
    op.kernel l r = none := by
  have horder : Kernel.order? l r = none := by
    cases h : Kernel.order? l r with
    | none => rfl
    | some order => exact absurd (kind_of_order? h) hkind
  cases op <;> first
    | exact absurd hop (by decide)
    | simp [kernel, Kernel.ordered, Kernel.equals, Kernel.notEquals, horder, hkind]

/-- Next to a value of another ordered kind, an integer is of another kind when it is widened,
too. -/
theorem widen_kinds (hl : l.Ordered) (hr : r.Ordered) {l' r' : Value}
    (hwiden : widen l r = some (l', r')) : l'.kind ≠ r'.kind := by
  cases hl <;> cases hr <;> cases hwiden <;> nofun

/-- Values of different ordered kinds are refused. -/
theorem refuses_kinds (hop : op ∈ comparisons) (hl : l.Ordered) (hr : r.Ordered)
    (hkind : l.kind ≠ r.kind) : op.Refuses names l r := by
  have hplus : op ≠ plus := fun h => by
    rw [h] at hop
    exact absurd hop (by decide)
  refine refuses_of_none (by cases hl <;> rfl) (by cases hr <;> rfl) ?_
  rw [direct_texts (kernel_kinds hop hkind) fun _ _ hwiden =>
    kernel_kinds hop (widen_kinds hl hr hwiden), joinsTexts_false hplus]
  rfl

/-- **Comparisons agree for two values**: of one kind, in what their order says; of different
kinds, in that there is nothing to compare. -/
theorem agree_ordered (hl : l.Ordered) (hr : r.Ordered) : Agree names l r := by
  by_cases hkind : l.kind = r.kind
  · obtain ⟨o, horder, hswap, hequal⟩ := order?_ordered hl hkind
    obtain ⟨o', horder', -, hequal'⟩ := order?_ordered hr hkind.symm
    obtain rfl : o' = o.swap := by simpa [hswap] using horder'.symm
    refine .inr ⟨_, .leaf (trichotomy_verdict o), fun op hop => ⟨?_, ?_⟩⟩
    · exact outcome_kernel (kernel_known hop hl horder hequal)
    · rw [← verdict_mirrored]
      exact outcome_kernel (kernel_known (mirrored_comparison hop) hr hswap hequal')
  · exact .inl fun op hop => ⟨_, refuses_kinds hop hl hr hkind⟩

/-- One value is less than another if that is their order. -/
theorem less_iff (hl : l.Ordered) (hr : r.Ordered) :
    less.outcome names l r = .ok (.bool true) ↔ Kernel.order? l r = some (.known .lt) := by
  by_cases hkind : l.kind = r.kind
  · obtain ⟨o, horder, -, hequal⟩ := order?_ordered hl hkind
    rw [outcome_kernel (kernel_known (by decide) hl horder hequal), horder]
    cases o <;> simp [verdict]
  · have hrefuses : less.Refuses names l r := refuses_kinds (by decide) hl hr hkind
    refine ⟨fun h => ?_, fun h => absurd (kind_of_order? h) hkind⟩
    rw [Refuses, h] at hrefuses
    cases hrefuses

/-! ### Sequences -/

theorem Consistent.kind {results : Operator → Value} (h : Consistent results)
    (op op' : Operator) : (results op).kind = (results op').kind := by
  cases h <;> rfl

/-- **Collections of consistent results are consistent**: they are all arrays or all lists. -/
theorem Consistent.collect {items : List (Operator → Value)}
    (hitems : ∀ results ∈ items, Consistent results) :
    Consistent fun op => Value.collect (items.map (· op)) := by
  cases items with
  | nil => exact .array .int hitems
  | cons first rest =>
    have hfirst : Consistent first := hitems first (.head _)
    have hkind : ∀ op, ∀ results ∈ rest,
        (results op).kind = (first op).kind ↔ (results less).kind = (first less).kind :=
      fun op results h => by
        rw [(hitems results (.tail _ h)).kind op less, hfirst.kind op less]
    by_cases hall : ∀ results ∈ rest, (results less).kind = (first less).kind
    · have hcollect : ∀ op, Value.collect ((first :: rest).map (· op)) =
          .array (first less).kind ((first :: rest).map (· op)) := fun op => by
        have hop : (rest.map (· op)).all (·.kind = (first op).kind) = true := by
          simpa using fun results h => (hkind op results h).mpr (hall results h)
        rw [List.map_cons, Value.collect, if_pos hop, hfirst.kind op less]
      simpa only [hcollect] using Consistent.array (first less).kind hitems
    · have hcollect : ∀ op, Value.collect ((first :: rest).map (· op)) =
          .list ((first :: rest).map (· op)) := fun op => by
        have hop : ¬ (rest.map (· op)).all (·.kind = (first op).kind) = true := fun h =>
          hall fun results hmem => (hkind op results hmem).mp (by
            simpa using List.all_eq_true.mp h _ (List.mem_map_of_mem hmem))
        rw [List.map_cons, Value.collect, if_neg hop]
      simpa only [hcollect] using Consistent.list hitems

/-- Pairs that do not fail have their results. -/
theorem each_of_forall₂ {ps : List (Value × Value)} {vs : List Value}
    (h : List.Forall₂ (fun p v => op.outcome names p.1 p.2 = .ok v) ps vs) :
    (each names op ps).2 = .ok vs := by
  induction h with
  | nil => rfl
  | cons hp _ ih =>
    rw [each_cons, hp, ih]
    rfl

/-- One pair that fails is enough for a failure. -/
theorem each_fails_of_mem {ps : List (Value × Value)} {p : Value × Value} (hp : p ∈ ps) {e : Error}
    (he : op.outcome names p.1 p.2 = .error e) : ∃ e', (each names op ps).2 = .error e' := by
  induction ps with
  | nil => cases hp
  | cons q ps ih =>
    cases hq : op.outcome names q.1 q.2 with
    | error e' => exact ⟨e', by rw [each_cons, hq]; rfl⟩
    | ok v =>
      have hmem : p ∈ ps := by
        rcases List.mem_cons.mp hp with rfl | hmem
        · rw [he] at hq
          cases hq
        · exact hmem
      obtain ⟨e', he'⟩ := ih hmem
      exact ⟨e', by rw [each_cons, hq, he']; rfl⟩

theorem not_replicates (hop : op ∈ comparisons) : ¬ op.Replicates r := fun h => by
  rw [h.1] at hop
  exact absurd hop (by decide)

theorem outcome_sequence (hop : op ∈ comparisons) (hseq : MeetsSequence l r)
    (hlen : SameLength l r) :
    op.outcome names l r = (each names op (pairs l r)).2.map Value.collect :=
  congrArg Prod.snd (apply_sequence hseq (direct_sequence hseq (not_replicates hop)) hlen)

theorem outcome_items (hop : op ∈ comparisons) (hseq : MeetsSequence l r) (hlen : SameLength l r)
    {vs : List Value}
    (hvs : List.Forall₂ (fun p v => op.outcome names p.1 p.2 = .ok v) (pairs l r) vs) :
    op.outcome names l r = .ok (Value.collect vs) := by
  rw [outcome_sequence hop hseq hlen, each_of_forall₂ hvs]
  rfl

/-- Sequences of different lengths are not compared. -/
theorem fails_lengths (hop : op ∈ comparisons) (hseq : MeetsSequence l r)
    (hlen : ¬ SameLength l r) : ∃ e, op.outcome names l r = .error e := by
  simp only [SameLength, not_forall] at hlen
  obtain ⟨ls, rs, hl, hr, hne⟩ := hlen
  have hdirect : op.direct names l r = none := direct_sequence hseq (not_replicates hop)
  exact ⟨_, congrArg Prod.snd (apply_lengths hl hr hdirect hne)⟩

/-- Sequences with a pair of items that are not compared are not compared either. -/
theorem fails_item (hop : op ∈ comparisons) (hseq : MeetsSequence l r) (hlen : SameLength l r)
    {p : Value × Value} (hp : p ∈ pairs l r) (hfails : ∃ e, op.outcome names p.1 p.2 = .error e) :
    ∃ e, op.outcome names l r = .error e := by
  obtain ⟨e, he⟩ := hfails
  obtain ⟨e', he'⟩ := each_fails_of_mem hp he
  exact ⟨e', by rw [outcome_sequence hop hseq hlen, he']; rfl⟩

/-- Exchanging operands exchanges the operands of all pairs. -/
theorem pairs_swap (l r : Value) : pairs r l = (pairs l r).map Prod.swap := by
  unfold pairs
  cases l.items? with
  | none => cases r.items? <;> simp
  | some ls =>
    cases r.items? with
    | none => simp
    | some rs => simp [List.zip_swap]

theorem SameLength.swap (h : SameLength l r) : SameLength r l :=
  fun rs ls hr hl => (h ls rs hl hr).symm

/-- **Comparisons agree for sequences** if they do for all pairs of their items. The results of the
pairs make up those of the sequences. -/
theorem agree_sequence (hseq : MeetsSequence l r)
    (hpairs : ∀ p ∈ pairs l r, Agree names p.1 p.2) : Agree names l r := by
  by_cases hlen : SameLength l r
  · by_cases hfails : ∃ p ∈ pairs l r, ∀ op ∈ comparisons, ∃ e,
        op.outcome names p.1 p.2 = .error e
    · obtain ⟨p, hp, herror⟩ := hfails
      exact .inl fun op hop => fails_item hop hseq hlen hp (herror op hop)
    · obtain ⟨items, hitems⟩ := Heap.forall₂_exists fun p hp =>
        (hpairs p hp).resolve_left fun herror => hfails ⟨p, hp, herror⟩
      have hconsistent : ∀ results ∈ items, Consistent results := fun results hresults => by
        obtain ⟨p, -, hp⟩ := Heap.forall₂_of_mem hitems.flip hresults
        exact hp.1
      refine .inr ⟨_, .collect hconsistent, fun op hop => ⟨?_, ?_⟩⟩
      · refine outcome_items hop hseq hlen (List.forall₂_map_right_iff.mpr ?_)
        exact hitems.imp fun p results h => (h.2 op hop).1
      · refine outcome_items (mirrored_comparison hop) hseq.symm hlen.swap ?_
        rw [pairs_swap, List.forall₂_map_left_iff, List.forall₂_map_right_iff]
        exact hitems.imp fun p results h => (h.2 op hop).2
  · exact .inl fun op hop => fails_lengths hop hseq hlen

/-! ### The law -/

/-- **Comparisons agree for comparable values**, by induction on the operands. -/
theorem agree_comparable (hl : l.Comparable) (hr : r.Comparable) : Agree names l r := by
  induction l, r using pairs_induction with
  | step l r ih =>
    by_cases hseq : MeetsSequence l r
    · refine agree_sequence hseq fun p hp => ?_
      obtain ⟨hp₁, hp₂⟩ := pairs_every Value.Every.item hl hr hp
      exact ih p hp hp₁ hp₂
    · obtain ⟨hleft, hright⟩ := not_or.mp hseq
      exact agree_ordered (hl.self.resolve_right hleft) (hr.self.resolve_right hright)

/-- **The comparisons agree with each other.** For values of ordered kinds and sequences of such
values, all of them fail; or all of them give results of one shape, at every leaf of which exactly
one of `<`, `==` and `>` holds and the other three say what they are put together from, and the
mirrored operators give the same for the operands exchanged. And `<` is transitive for values of
ordered kinds. -/
theorem comparisons_agree (names : Names) :
    (∀ l r : Value, l.Comparable → r.Comparable → Agree names l r) ∧
    ∀ x y z : Value, x.Ordered → y.Ordered → z.Ordered →
      less.outcome names x y = .ok (.bool true) → less.outcome names y z = .ok (.bool true) →
      less.outcome names x z = .ok (.bool true) := by
  refine ⟨fun l r => agree_comparable, fun x y z hx hy hz hxy hyz => ?_⟩
  exact (less_iff hx hz).mpr (order?_trans hx ((less_iff hx hy).mp hxy) ((less_iff hy hz).mp hyz))

/-- Comparing a number and a text with two others, item by item, forwards and backwards. -/
theorem mixedList_compared :
    (Value.list [.int 1, .text "a"]).Comparable ∧ (Value.list [.int 2, .text "a"]).Comparable ∧
    greater.outcome (fun _ => []) (.list [.int 2, .text "a"]) (.list [.int 1, .text "a"]) =
      .ok (.array .bool [.bool true, .bool false]) ∧
    less.outcome (fun _ => []) (.int 1) (.int 3) = .ok (.bool true) := by
  have hcomparable : ∀ n : Int64, (Value.list [.int n, .text "a"]).Comparable := fun n => by
    refine Value.every_list (.inr rfl)
      (List.forall_mem_cons.mpr ⟨?_, List.forall_mem_singleton.mpr ?_⟩)
    · exact Value.every_of_none rfl (.inl (.int n))
    · exact Value.every_of_none rfl (.inl (.text "a"))
  have hless : less.outcome (fun _ => []) (.list [.int 1, .text "a"]) (.list [.int 2, .text "a"]) =
      .ok (.array .bool [.bool true, .bool false]) := rfl
  obtain ⟨hagree, htrans⟩ := comparisons_agree fun _ => []
  refine ⟨hcomparable 1, hcomparable 2, ?_, ?_⟩
  · rcases hagree _ _ (hcomparable 1) (hcomparable 2) with hfails | ⟨results, -, hresults⟩
    · obtain ⟨e, he⟩ := hfails less (by decide)
      rw [hless] at he
      cases he
    · obtain ⟨hforwards, hbackwards⟩ := hresults less (by decide)
      rw [← hless, hforwards]
      exact hbackwards
  · exact htrans (.int 1) (.int 2) (.int 3) (.int 1) (.int 2) (.int 3) rfl rfl

end Operator

end Reckoner
