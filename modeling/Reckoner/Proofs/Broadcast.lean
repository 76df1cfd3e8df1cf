import Mathlib.Tactic
import Reckoner.Operator.Evaluate

/-!
# Operators on sequences

An operator that meets a sequence is applied item by item. Three steps come before that, and
none of them takes a sequence: no kernel has a case for one, a widened operand is never one, and
texts of sequences are not joined. The exception is replication, whose kernel takes anything on
the left of an integer.

So the law holds for all operators and at every depth: what is computed for the items is again
what the operator computes for them, whatever steps that takes.
-/

namespace Reckoner

namespace Operator

variable {names : Names} {op : Operator} {l r : Value}

/-- An operand is a sequence. -/
def MeetsSequence (l r : Value) : Prop := l.items?.isSome ∨ r.items?.isSome

/-- The operator replicates its left operand as often as the right one says. -/
def Replicates (op : Operator) (r : Value) : Prop := op = generate ∧ ∃ n, r = .int n

/-! ### The steps before -/

/-- **No kernel takes a sequence**, except for replication. -/
theorem kernel_sequence (hseq : MeetsSequence l r) (hop : ¬ op.Replicates r) :
    op.kernel l r = none := by
  have hleft : ∀ l : Value, l.items?.isSome → op.kernel l r = none := by
    intro l hl
    cases l with
    | array elem ls =>
      cases op <;> cases r <;> first | rfl | exact absurd ⟨rfl, _, rfl⟩ hop
    | list ls =>
      cases op <;> cases r <;> first | rfl | exact absurd ⟨rfl, _, rfl⟩ hop
    | _ => cases hl
  have hright : ∀ r : Value, r.items?.isSome → op.kernel l r = none := by
    intro r hr
    cases r with
    | array elem rs => cases op <;> cases l <;> rfl
    | list rs => cases op <;> cases l <;> rfl
    | _ => cases hr
  exact hseq.elim (hleft l) (hright r)

/-- Widening leaves a sequence as it is, and gives no integer. -/
theorem widen_sequence (hseq : MeetsSequence l r) {wl wr : Value}
    (hw : widen l r = some (wl, wr)) : MeetsSequence wl wr ∧ ∀ n, wr ≠ .int n := by
  unfold widen at hw
  split at hw
  · cases hw
  · cases hw
    rcases hseq with hl | hr
    · cases hl
    · exact ⟨.inr hr, fun n hn => by rw [hn] at hr; cases hr⟩
  · cases hw
    rcases hseq with hl | hr
    · exact ⟨.inl hl, fun n hn => by cases hn⟩
    · cases hr
  · cases hw

theorem textual_sequence (hseq : MeetsSequence l r) : textual l r = false := by
  unfold textual
  rcases hseq with h | h
  · obtain ⟨items, hitems⟩ := Option.isSome_iff_exists.mp h
    simp [hitems]
  · obtain ⟨items, hitems⟩ := Option.isSome_iff_exists.mp h
    simp [hitems]

/-- Nothing but going item by item applies to a sequence. Widening does not change that: a sequence
stays one, and no integer comes to stand on the right. -/
theorem direct_sequence (hseq : MeetsSequence l r) (hop : ¬ op.Replicates r) :
    op.direct names l r = none := by
  have hkernel : op.kernel l r = none := kernel_sequence hseq hop
  have htextual : textual l r = false := textual_sequence hseq
  cases hw : widen l r with
  | none => simp [direct, hkernel, hw, htextual]
  | some w =>
    obtain ⟨wl, wr⟩ := w
    obtain ⟨hseq', hint⟩ := widen_sequence hseq hw
    have hkernel' : op.kernel wl wr = none :=
      kernel_sequence hseq' fun ⟨_, n, hn⟩ => hint n hn
    simp [direct, hkernel, hw, hkernel', htextual]

/-! ### Item by item -/

/-- The pairs of operands that the operator is applied to: items at the same place, or the items
of the only sequence with the other operand. -/
def pairs (l r : Value) : List (Value × Value) :=
  match l.items?, r.items? with
  | some ls, some rs => ls.zip rs
  | some ls, none => ls.map fun x => (x, r)
  | none, some rs => rs.map fun y => (l, y)
  | none, none => []

/-- Operands of a pair are operands that are no sequences, and items of those that are. -/
theorem mem_pairs {p : Value × Value} (hp : p ∈ pairs l r) : MeetsSequence l r ∧
    (l.items? = none ∧ p.1 = l ∨ ∃ ls, l.items? = some ls ∧ p.1 ∈ ls) ∧
    (r.items? = none ∧ p.2 = r ∨ ∃ rs, r.items? = some rs ∧ p.2 ∈ rs) := by
  unfold pairs at hp
  split at hp
  · next ls rs hl hr =>
    obtain ⟨hp₁, hp₂⟩ := List.of_mem_zip hp
    exact ⟨.inl (by simp [hl]), .inr ⟨ls, hl, hp₁⟩, .inr ⟨rs, hr, hp₂⟩⟩
  · next ls hl hr =>
    obtain ⟨x, hx, rfl⟩ := List.mem_map.mp hp
    exact ⟨.inl (by simp [hl]), .inr ⟨ls, hl, hx⟩, .inl ⟨hr, rfl⟩⟩
  · next rs hl hr =>
    obtain ⟨y, hy, rfl⟩ := List.mem_map.mp hp
    exact ⟨.inr (by simp [hr]), .inl ⟨hl, rfl⟩, .inr ⟨rs, hr, hy⟩⟩
  · cases hp

theorem sizeOf_item {v w : Value} {items : List Value} (hv : v.items? = some items)
    (hw : w ∈ items) : sizeOf w < sizeOf v := by
  have hlt : sizeOf w < sizeOf items := List.sizeOf_lt_of_mem hw
  cases v with
  | array elem vs =>
    cases hv
    simp only [Value.array.sizeOf_spec]
    omega
  | list vs =>
    cases hv
    simp only [Value.list.sizeOf_spec]
    omega
  | _ => cases hv

/-- Of the operands of a pair one is smaller, and none is larger. -/
theorem sizeOf_pair {p : Value × Value} (hp : p ∈ pairs l r) :
    sizeOf p.1 + sizeOf p.2 < sizeOf l + sizeOf r := by
  obtain ⟨hseq, hleft, hright⟩ := mem_pairs hp
  rcases hleft with ⟨hl, h₁⟩ | ⟨ls, hl, h₁⟩
  · rcases hright with ⟨hr, -⟩ | ⟨rs, hr, h₂⟩
    · simp [MeetsSequence, hl, hr] at hseq
    · have := sizeOf_item hr h₂
      rw [h₁]
      omega
  · have := sizeOf_item hl h₁
    rcases hright with ⟨-, h₂⟩ | ⟨rs, hr, h₂⟩
    · rw [h₂]
      omega
    · have := sizeOf_item hr h₂
      omega

/-- **Induction on two operands**: what holds of them if it holds of all pairs of their items. -/
theorem pairs_induction {motive : Value → Value → Prop}
    (step : ∀ l r, (∀ p ∈ pairs l r, motive p.1 p.2) → motive l r) (l r : Value) : motive l r :=
  step l r fun p _ => pairs_induction step p.1 p.2
termination_by sizeOf l + sizeOf r
decreasing_by exact sizeOf_pair ‹_›

/-- The operands are not two sequences of different lengths. -/
def SameLength (l r : Value) : Prop :=
  ∀ ls rs, l.items? = some ls → r.items? = some rs → ls.length = rs.length

/-- Applies the operator to pairs in order, up to the first that fails. -/
def each (names : Names) (op : Operator) : List (Value × Value) → Logged (List Value)
  | [] => ([], .ok [])
  | p :: ps => cons (op.apply names p.1 p.2) fun _ => each names op ps

theorem applyPairs_eq (ls rs : List Value) :
    applyPairs names op ls rs = each names op (ls.zip rs) := by
  induction ls generalizing rs with
  | nil => simp [applyPairs, each]
  | cons l ls ih =>
    cases rs with
    | nil => simp [applyPairs, each]
    | cons r rs => rw [applyPairs, ih, List.zip_cons_cons, each]

theorem applyEach_eq (ls : List Value) (r : Value) :
    applyEach names op ls r = each names op (ls.map fun x => (x, r)) := by
  induction ls with
  | nil => simp [applyEach, each]
  | cons l ls ih => rw [applyEach, ih, List.map_cons, each]

/-- With a left operand that is no sequence, all depends on the right one. -/
theorem apply_scalar (hl : l.items? = none) : op.apply names l r = op.applyScalar names l r := by
  cases l with
  | array elem ls => cases hl
  | list ls => cases hl
  | _ => simp [apply]

theorem applyScalarEach_eq (hl : l.items? = none) (rs : List Value) :
    applyScalarEach names op l rs = each names op (rs.map fun y => (l, y)) := by
  induction rs with
  | nil => simp [applyScalarEach, each]
  | cons r rs ih => rw [applyScalarEach, ih, List.map_cons, each, apply_scalar hl]

theorem applyScalar_direct {logged : Logged Value} (hdirect : op.direct names l r = some logged) :
    op.applyScalar names l r = logged := by
  cases r <;> simp [applyScalar, hdirect]

/-- Where one of the steps before applies, nothing goes item by item. -/
theorem apply_direct {logged : Logged Value} (hdirect : op.direct names l r = some logged) :
    op.apply names l r = logged := by
  cases l with
  | array elem ls => simp only [apply, hdirect]
  | list ls => simp only [apply, hdirect]
  | _ => rw [apply_scalar rfl, applyScalar_direct hdirect]

/-- Without a sequence and without one of the steps before there is nothing to compute. -/
theorem apply_unsupported (hl : l.items? = none) (hr : r.items? = none)
    (hdirect : op.direct names l r = none) :
    op.apply names l r = ([], .error (op.unsupported names (some l) (some r))) := by
  rw [apply_scalar hl]
  cases r with
  | array elem rs => cases hr
  | list rs => cases hr
  | _ => simp [applyScalar, hdirect]

/-- Both operands are sequences, with nothing else to do. -/
theorem apply_both {ls rs : List Value} (hl : l.items? = some ls) (hr : r.items? = some rs)
    (hdirect : op.direct names l r = none) :
    op.apply names l r =
      if ls.length = rs.length then gather (applyPairs names op ls rs)
      else ([], .error (.lengths op.symbol ls.length rs.length)) := by
  cases l with
  | array elem items => cases hl; simp only [apply, hdirect, hr]
  | list items => cases hl; simp only [apply, hdirect, hr]
  | _ => cases hl

/-- Only the left operand is a sequence, with nothing else to do. -/
theorem apply_left {ls : List Value} (hl : l.items? = some ls) (hr : r.items? = none)
    (hdirect : op.direct names l r = none) :
    op.apply names l r = gather (applyEach names op ls r) := by
  cases l with
  | array elem items => cases hl; simp only [apply, hdirect, hr]
  | list items => cases hl; simp only [apply, hdirect, hr]
  | _ => cases hl

/-- Only the right operand is a sequence, with nothing else to do. -/
theorem apply_right {rs : List Value} (hl : l.items? = none) (hr : r.items? = some rs)
    (hdirect : op.direct names l r = none) :
    op.apply names l r = gather (applyScalarEach names op l rs) := by
  rw [apply_scalar hl]
  cases r with
  | array elem items => cases hr; rw [applyScalar, hdirect]
  | list items => cases hr; rw [applyScalar, hdirect]
  | _ => cases hr

/-- **The operator on a sequence** is the operator on its items. -/
theorem apply_sequence (hseq : MeetsSequence l r) (hdirect : op.direct names l r = none)
    (hlen : SameLength l r) : op.apply names l r = gather (each names op (pairs l r)) := by
  cases hl : l.items? with
  | some ls =>
    cases hr : r.items? with
    | some rs =>
      rw [apply_both hl hr hdirect, if_pos (hlen ls rs hl hr), applyPairs_eq, pairs, hl, hr]
    | none => rw [apply_left hl hr hdirect, applyEach_eq, pairs, hl, hr]
  | none =>
    cases hr : r.items? with
    | some rs => rw [apply_right hl hr hdirect, applyScalarEach_eq hl, pairs, hl, hr]
    | none => simp [MeetsSequence, hl, hr] at hseq

theorem apply_lengths {ls rs : List Value} (hl : l.items? = some ls) (hr : r.items? = some rs)
    (hdirect : op.direct names l r = none) (hlen : ls.length ≠ rs.length) :
    op.apply names l r = ([], .error (.lengths op.symbol ls.length rs.length)) := by
  rw [apply_both hl hr hdirect, if_neg hlen]

/-- **What applies**: one of the steps before; or the operator on the items; or nothing, for two
sequences of different lengths and for operands that are no sequences. -/
theorem apply_cases (names : Names) (op : Operator) (l r : Value) :
    (∃ logged, op.direct names l r = some logged ∧ op.apply names l r = logged) ∨
    op.direct names l r = none ∧
      (MeetsSequence l r ∧ SameLength l r ∧
          op.apply names l r = gather (each names op (pairs l r)) ∨
        (∃ ls rs, l.items? = some ls ∧ r.items? = some rs ∧ ls.length ≠ rs.length ∧
          op.apply names l r = ([], .error (.lengths op.symbol ls.length rs.length))) ∨
        l.items? = none ∧ r.items? = none ∧
          op.apply names l r = ([], .error (op.unsupported names (some l) (some r)))) := by
  cases hdirect : op.direct names l r with
  | some logged => exact .inl ⟨logged, rfl, apply_direct hdirect⟩
  | none =>
    refine .inr ⟨rfl, ?_⟩
    by_cases hseq : MeetsSequence l r
    · by_cases hlen : SameLength l r
      · exact .inl ⟨hseq, hlen, apply_sequence hseq hdirect hlen⟩
      · simp only [SameLength, not_forall] at hlen
        obtain ⟨ls, rs, hl, hr, hne⟩ := hlen
        exact .inr (.inl ⟨ls, rs, hl, hr, hne, apply_lengths hl hr hdirect hne⟩)
    · obtain ⟨hl, hr⟩ : l.items? = none ∧ r.items? = none := by
        simpa [MeetsSequence] using hseq
      exact .inr (.inr ⟨hl, hr, apply_unsupported hl hr hdirect⟩)

/-! ### The first failure -/

/-- What the operator gives for two values, apart from the log. -/
def outcome (names : Names) (op : Operator) (l r : Value) : Except Error Value :=
  (op.evaluate names (some l) (some r)).2

theorem cons_outcome {first : Logged Value} {rest : Unit → Logged (List Value)} :
    (cons first rest).2 = first.2.bind fun v => (rest ()).2.map (v :: ·) := by
  obtain ⟨log, e | v⟩ := first <;> rfl

theorem each_cons {p : Value × Value} {ps : List (Value × Value)} :
    (each names op (p :: ps)).2 =
      (op.outcome names p.1 p.2).bind fun v => (each names op ps).2.map (v :: ·) :=
  cons_outcome

/-- The first pair that fails decides. -/
theorem each_error {before after : List (Value × Value)} {p : Value × Value} {e : Error}
    (hbefore : ∀ q ∈ before, ∃ v, op.outcome names q.1 q.2 = .ok v)
    (hp : op.outcome names p.1 p.2 = .error e) :
    (each names op (before ++ p :: after)).2 = .error e := by
  induction before with
  | nil => rw [List.nil_append, each_cons, hp]; rfl
  | cons q before ih =>
    obtain ⟨v, hv⟩ := hbefore q (.head _)
    rw [List.cons_append, each_cons, hv, ih fun q' hq' => hbefore q' (.tail _ hq')]
    rfl

/-- If no pair fails, all their results are there in order. -/
theorem each_ok {ps : List (Value × Value)}
    (hps : ∀ q ∈ ps, ∃ v, op.outcome names q.1 q.2 = .ok v) :
    ∃ vs, (each names op ps).2 = .ok vs ∧
      List.Forall₂ (fun q v => op.outcome names q.1 q.2 = .ok v) ps vs := by
  induction ps with
  | nil => exact ⟨[], rfl, .nil⟩
  | cons q ps ih =>
    obtain ⟨v, hv⟩ := hps q (.head _)
    obtain ⟨vs, hvs, hall⟩ := ih fun q' hq' => hps q' (.tail _ hq')
    refine ⟨v :: vs, ?_, .cons hv hall⟩
    rw [each_cons, hv, hvs]
    rfl

/-! ### The sequence of the results -/

/-- A value is the sequence of these items, of the type their kinds ask for: an array if they
share a kind, an array of integers if there are none, and a list otherwise. -/
structure Collects (vs : List Value) (s : Value) : Prop where
  /-- It has these items. -/
  items : s.items? = some vs
  /-- No items make an array of integers. -/
  empty : vs = [] → s = .array .int []
  /-- Items of one kind make an array of that kind. -/
  uniform : ∀ k, vs ≠ [] → (∀ v ∈ vs, v.kind = k) → s = .array k vs
  /-- Items of several kinds make a list. -/
  mixed : (¬ ∃ k, ∀ v ∈ vs, v.kind = k) → s = .list vs

theorem collect_collects (vs : List Value) : Collects vs (Value.collect vs) := by
  cases vs with
  | nil => exact ⟨rfl, fun _ => rfl, fun _ h => absurd rfl h, fun h => absurd ⟨.int, by simp⟩ h⟩
  | cons v rest =>
    by_cases hall : ∀ w ∈ rest, w.kind = v.kind
    · have hcollect : Value.collect (v :: rest) = .array v.kind (v :: rest) := by
        simpa [Value.collect] using hall
      rw [hcollect]
      refine ⟨rfl, nofun, fun k _ hk => ?_, fun hmixed => ?_⟩
      · rw [hk v (.head _)]
      · exact absurd ⟨v.kind, List.forall_mem_cons.mpr ⟨rfl, hall⟩⟩ hmixed
    · have hcollect : Value.collect (v :: rest) = .list (v :: rest) := by
        simpa [Value.collect] using hall
      rw [hcollect]
      refine ⟨rfl, nofun, fun k _ hk => ?_, fun _ => rfl⟩
      refine absurd (fun w hw => ?_) hall
      rw [hk w (.tail _ hw), hk v (.head _)]

/-! ### The law -/

/-- **Broadcasting is the operator on pairs.** On operands of which one at least is a sequence,
every operator but replication fails for sequences of different lengths; it fails like the first
pair that fails; and if none does, it gives the sequence of what it gives for the pairs. -/
theorem evaluate_broadcast (names : Names) (op : Operator) (l r : Value)
    (hseq : MeetsSequence l r) (hop : ¬ op.Replicates r) :
    (∀ ls rs, l.items? = some ls → r.items? = some rs → ls.length ≠ rs.length →
      op.outcome names l r = .error (.lengths op.symbol ls.length rs.length)) ∧
    (SameLength l r →
      (∀ before p after e, pairs l r = before ++ p :: after →
        (∀ q ∈ before, ∃ v, op.outcome names q.1 q.2 = .ok v) →
        op.outcome names p.1 p.2 = .error e → op.outcome names l r = .error e) ∧
      ((∀ q ∈ pairs l r, ∃ v, op.outcome names q.1 q.2 = .ok v) →
        ∃ vs s, op.outcome names l r = .ok s ∧ Collects vs s ∧
          List.Forall₂ (fun q v => op.outcome names q.1 q.2 = .ok v) (pairs l r) vs)) := by
  have hdirect : op.direct names l r = none := direct_sequence hseq hop
  refine ⟨fun ls rs hl hr hlen => ?_, fun hlen => ?_⟩
  · show (op.apply names l r).2 = _
    rw [apply_lengths hl hr hdirect hlen]
  · have houtcome : op.outcome names l r = (each names op (pairs l r)).2.map Value.collect :=
      congrArg Prod.snd (apply_sequence hseq hdirect hlen)
    refine ⟨fun before p after e hpairs hbefore hp => ?_, fun hall => ?_⟩
    · rw [houtcome, hpairs, each_error hbefore hp]
      rfl
    · obtain ⟨vs, hvs, hresults⟩ := each_ok hall
      refine ⟨vs, Value.collect vs, ?_, collect_collects vs, hresults⟩
      rw [houtcome, hvs]
      rfl

/-- Comparing the items of a list with a text: the first gives a truth value, and the second, a
number, fails. -/
theorem mixedList_broadcast :
    outcome (fun _ => []) equals (.list [.text [1], .int 1]) (.text [1]) =
      .error (equals.unsupported (fun _ => []) (some (.int 1)) (some (.text [1]))) := by
  have hlaw := evaluate_broadcast (fun _ => []) equals (.list [.text [1], .int 1]) (.text [1])
    (.inl rfl) (fun h => nomatch h.1)
  refine (hlaw.2 fun _ _ _ hr => nomatch hr).1 [(.text [1], .text [1])] (.int 1, .text [1]) [] _
    rfl ?_ rfl
  rintro q (_ | ⟨_, ⟨⟩⟩)
  exact ⟨.bool true, rfl⟩

end Operator

end Reckoner
