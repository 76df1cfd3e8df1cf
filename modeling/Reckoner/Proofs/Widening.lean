import Reckoner.Proofs.Broadcast

/-!
# Widening is transparent

Next to a value of another kind, an integer counts as the real that it is converted to. No kernel
takes an integer there as it is, so that evaluation goes on to the kernel for the real, which is
the first one to be asked if the operand is that real itself. What comes out is the same value or
the same error; and where there is no kernel for the real either, the types of both pairs of
operands are refused.

Replication is the exception: its kernel takes an integer on the right, and no real.
-/

namespace Reckoner

namespace Value

/-- The real that an integer is converted to. -/
def widened (n : Int64) : Value := .real (Binary64.ofInt n.toInt)

/-- The value is no integer, no string and no sequence. -/
structure Plain (v : Value) : Prop where
  /-- It is no integer, so it is not widened. -/
  not_int : v.kind ≠ .int
  /-- It is no string, so nothing is joined. -/
  not_text : v.kind ≠ .text
  /-- It is no sequence, so nothing is done item by item. -/
  not_sequence : v.items? = none

theorem plain_widened (n : Int64) : (widened n).Plain := ⟨nofun, nofun, rfl⟩

end Value

open Value (widened plain_widened)

namespace Operator

variable {names : Names} {op : Operator} {l r v : Value} {n : Int64}

/-! ### Kernels -/

/-- No kernel takes an integer on the left of a value of another kind. -/
theorem kernel_int_left (hv : v.kind ≠ .int) : op.kernel (.int n) v = none := by
  cases v with
  | int m => exact absurd rfl hv
  | _ => cases op <;> rfl

/-- On the right of a value of another kind, an integer counts how often that is replicated or,
if it is a string, repeated. No other kernel takes it. -/
theorem kernel_int_right (hop : op ≠ generate) (hv : v.Plain) : op.kernel v (.int n) = none := by
  cases op with
  | generate => exact absurd rfl hop
  | _ =>
    cases v with
    | int m => exact absurd rfl hv.not_int
    | text s => exact absurd rfl hv.not_text
    | _ => rfl

/-! ### Steps -/

theorem widen_int_left (hv : v.kind ≠ .int) : widen (.int n) v = some (widened n, v) := by
  cases v with
  | int m => exact absurd rfl hv
  | _ => rfl

theorem widen_int_right (hv : v.kind ≠ .int) : widen v (.int n) = some (v, widened n) := by
  cases v with
  | int m => exact absurd rfl hv
  | _ => rfl

theorem widen_none (hl : l.kind ≠ .int) (hr : r.kind ≠ .int) : widen l r = none := by
  cases l with
  | int n => exact absurd rfl hl
  | _ =>
    cases r with
    | int n => exact absurd rfl hr
    | _ => rfl

theorem textual_none (hl : l.kind ≠ .text) (hr : r.kind ≠ .text) : textual l r = false := by
  simp [textual, hl, hr]

/-- The operands are looked at as they are, and only the kernel for `l'` and `r'` is asked. -/
def Asks (names : Names) (op : Operator) (l r l' r' : Value) : Prop :=
  ∃ log, op.direct names l r = (op.kernel l' r').map fun answer => (log, answer)

/-- Operands of which none is an integer or a string are asked about as they are. -/
theorem asks_plain (hl : l.Plain) (hr : r.Plain) : op.Asks names l r l r := by
  refine ⟨[], ?_⟩
  cases hkernel : op.kernel l r with
  | some answer => simp [direct, hkernel]
  | none =>
    simp [direct, hkernel, widen_none hl.not_int hr.not_int,
      textual_none hl.not_text hr.not_text]

/-- Operands without a kernel are asked about as they are widened. -/
theorem asks_widened (hkernel : op.kernel l r = none) {l' r' : Value}
    (hwiden : widen l r = some (l', r')) (htextual : textual l r = false) :
    op.Asks names l r l' r' := by
  refine ⟨[.widened op.symbol l.typeName r.typeName], ?_⟩
  cases hanswer : op.kernel l' r' with
  | some answer => simp [direct, hkernel, hwiden, hanswer]
  | none => simp [direct, hkernel, hwiden, hanswer, htextual]

/-! ### The law -/

/-- The types of the operands are refused. -/
def Refuses (names : Names) (op : Operator) (l r : Value) : Prop :=
  op.outcome names l r = .error (op.unsupported names (some l) (some r))

/-- The operator gives the same value or the same error for two pairs of operands, or it refuses
the types of both. -/
def Agrees (names : Names) (op : Operator) (l r l' r' : Value) : Prop :=
  op.outcome names l r = op.outcome names l' r' ∨
    op.Refuses names l r ∧ op.Refuses names l' r'

theorem outcome_direct {logged : Logged Value} (hdirect : op.direct names l r = some logged) :
    op.outcome names l r = logged.2 :=
  congrArg Prod.snd (apply_direct hdirect)

theorem refuses_of_none (hl : l.items? = none) (hr : r.items? = none)
    (hdirect : op.direct names l r = none) : op.Refuses names l r :=
  congrArg Prod.snd (apply_unsupported hl hr hdirect)

/-- Operands that are asked about in the same way are treated alike. -/
theorem Asks.agrees {l' r' x y : Value} (h : op.Asks names l r x y)
    (h' : op.Asks names l' r' x y) (hl : l.items? = none) (hr : r.items? = none)
    (hl' : l'.items? = none) (hr' : r'.items? = none) : op.Agrees names l r l' r' := by
  obtain ⟨log, hdirect⟩ := h
  obtain ⟨log', hdirect'⟩ := h'
  cases hkernel : op.kernel x y with
  | some answer =>
    rw [hkernel] at hdirect hdirect'
    exact .inl ((outcome_direct hdirect).trans (outcome_direct hdirect').symm)
  | none =>
    rw [hkernel] at hdirect hdirect'
    exact .inr ⟨refuses_of_none hl hr hdirect, refuses_of_none hl' hr' hdirect'⟩

theorem agrees_left (hv : v.Plain) : op.Agrees names (.int n) v (widened n) v := by
  have hint : op.Asks names (.int n) v (widened n) v :=
    asks_widened (kernel_int_left hv.not_int) (widen_int_left hv.not_int)
      (textual_none nofun hv.not_text)
  exact hint.agrees (asks_plain (plain_widened n) hv) rfl hv.not_sequence rfl hv.not_sequence

theorem agrees_right (hop : op ≠ generate) (hv : v.Plain) :
    op.Agrees names v (.int n) v (widened n) := by
  have hint : op.Asks names v (.int n) v (widened n) :=
    asks_widened (kernel_int_right hop hv) (widen_int_right hv.not_int)
      (textual_none hv.not_text nofun)
  exact hint.agrees (asks_plain hv (plain_widened n)) hv.not_sequence rfl hv.not_sequence rfl

/-- Replication takes an integer, if not always with success, and no real. -/
theorem not_agrees_generate (hv : v.Plain) :
    ¬ generate.Agrees names v (.int n) v (widened n) := by
  have hint : generate.outcome names v (.int n)
      = if 0 ≤ n && n.toInt ≤ maxCollectionLength then
          .ok (.array v.kind (List.replicate n.toInt.toNat v))
        else .error (.outsideDomain (some (.int n)) 2 "#") :=
    @outcome_direct _ _ _ _ ([], _) rfl
  have hreal : generate.Refuses names v (widened n) := by
    obtain ⟨log, hdirect⟩ := @asks_plain names generate _ _ hv (plain_widened n)
    exact refuses_of_none hv.not_sequence rfl hdirect
  unfold Agrees Refuses at *
  rw [hreal, hint]
  split
  · simp
  · simp [unsupported]

/-- **Widening is transparent.** Next to a value that is no integer, no string and no sequence,
every operator gives for an integer what it gives for the real that the integer is converted to,
the same value or the same error, or it refuses the types of both; on the right as on the left,
with the one exception of replication on the right. -/
theorem evaluate_widened (names : Names) (op : Operator) (n : Int64) (v : Value) (hv : v.Plain) :
    op.Agrees names (.int n) v (widened n) v ∧
      (op.Agrees names v (.int n) v (widened n) ↔ op ≠ generate) := by
  refine ⟨agrees_left hv, fun hagrees hop => ?_, fun hop => agrees_right hop hv⟩
  subst hop
  exact not_agrees_generate hv hagrees

/-- Three times a second, on both sides and from the widened three, are three seconds. -/
theorem threeSeconds_widened : (Value.timeSpan 1000000000).Plain ∧
    times.Agrees (fun _ => []) (.int 3) (.timeSpan 1000000000) (widened 3)
      (.timeSpan 1000000000) ∧
    times.Agrees (fun _ => []) (.timeSpan 1000000000) (.int 3) (.timeSpan 1000000000)
      (widened 3) ∧
    times.outcome (fun _ => []) (.int 3) (.timeSpan 1000000000) = .ok (.timeSpan 3000000000) := by
  have hspan : (Value.timeSpan 1000000000).Plain := ⟨nofun, nofun, rfl⟩
  obtain ⟨hleft, hright⟩ := evaluate_widened (fun _ => []) times 3 _ hspan
  have hproduct : (Binary64.ofInt 3 * Kernel.spanReal 1000000000).truncate = 3000000000 := by
    decide +kernel
  refine ⟨hspan, hleft, hright.mpr nofun, ?_⟩
  rw [← hproduct]
  exact @outcome_direct _ _ _ _ ([_], _) rfl

end Operator

end Reckoner
