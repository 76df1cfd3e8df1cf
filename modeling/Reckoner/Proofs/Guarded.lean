import Mathlib.Tactic
import Reckoner.Value.Text

/-!
# Partial operations

The definitions of the library are total: they never read outside of a list and never divide by
nothing. To say that an operator does not get into such a place, this module has the partial
operations by themselves. Each of them traps where it has no answer, and a trap is not an error:
nobody catches it.

Every loop takes places one by one and reads and writes by their numbers. What a loop gives is
said once, by the list that it fills, and not for each of the operators that run it.
-/

namespace Reckoner

/-- Why a computation stops without an answer. -/
inductive Trap where
  /-- A place outside of a sequence is read or written. -/
  | index
  /-- A sequence is made of a negative length, or of more than fits into 64 bits. -/
  | size
  /-- An integer is divided by zero. -/
  | divisor
  /-- There is no value where one is used. -/
  | missing
  /-- Linear algebra gets an empty operand, or operands whose dimensions do not match. -/
  | dimensions
  /-- A loop or a recursion runs out of steps. -/
  | endless
  deriving DecidableEq, Repr

/-- What a computation gives, unless it traps. -/
abbrev Guarded (α : Type) := Except Trap α

namespace Guarded

variable {α β : Type}

@[simp] theorem ok_bind (x : α) (f : α → Guarded β) : (Except.ok x : Guarded α) >>= f = f x := rfl

@[simp] theorem pure_eq (x : α) : (pure x : Guarded α) = .ok x := rfl

/-! ### Single operations -/

/-- The item at a place. -/
def read (xs : List α) (i : Nat) : Guarded α :=
  match xs[i]? with
  | some x => .ok x
  | none => .error .index

/-- Replaces the item at a place. -/
def write (xs : List α) (i : Nat) (x : α) : Guarded (List α) :=
  if i < xs.length then .ok (xs.set i x) else .error .index

/-- A sequence of a length, the same item everywhere. -/
def make (size : Int) (x : α) : Guarded (List α) :=
  if 0 ≤ size then .ok (List.replicate size.toNat x) else .error .size

/-- What is there. -/
def present : Option α → Guarded α
  | some x => .ok x
  | none => .error .missing

/-- A division, which stops the program if the divisor is zero. -/
def quotient [OfNat α 0] [DecidableEq α] [Div α] (x y : α) : Guarded α :=
  if y = 0 then .error .divisor else .ok (x / y)

/-- A remainder, which stops the program if the divisor is zero. -/
def remainder [OfNat α 0] [DecidableEq α] [Mod α] (x y : α) : Guarded α :=
  if y = 0 then .error .divisor else .ok (x % y)

theorem read_eq {xs : List α} {i : Nat} (hi : i < xs.length) : read xs i = .ok xs[i] := by
  rw [read, List.getElem?_eq_getElem hi]

theorem write_eq {xs : List α} {i : Nat} (hi : i < xs.length) (x : α) :
    write xs i x = .ok (xs.set i x) := if_pos hi

theorem make_of_nonneg {size : Int} (hsize : 0 ≤ size) (x : α) :
    make size x = .ok (List.replicate size.toNat x) := if_pos hsize

@[simp] theorem make_eq (n : Nat) (x : α) : make n x = .ok (List.replicate n x) :=
  make_of_nonneg (Int.natCast_nonneg n) x

theorem quotient_eq [OfNat α 0] [DecidableEq α] [Div α] {x y : α} (hy : y ≠ 0) :
    quotient x y = .ok (x / y) := if_neg hy

/-- Makes a sequence and writes its places, from the first to the last. -/
def fill (size : Int) (x : α) (f : Nat → Guarded α) : Guarded (List α) := do
  let out ← make size x
  (List.range size.toNat).foldlM (fun out i => do write out i (← f i)) out

/-- While a sequence is filled, its first places hold what they will hold in the end. -/
theorem foldlM_write {ys : List α} (x : α) {f : Nat → Guarded α}
    (hf : ∀ i (hi : i < ys.length), f i = .ok ys[i]) {k : Nat} (hk : k ≤ ys.length) :
    (List.range k).foldlM (fun out i => do write out i (← f i)) (List.replicate ys.length x) =
      .ok (ys.take k ++ List.replicate (ys.length - k) x) := by
  induction k with
  | zero => simp
  | succ k ih =>
    have hlen : (ys.take k ++ List.replicate (ys.length - k) x).length = ys.length := by
      simp
      omega
    have hrest : List.replicate (ys.length - k) x =
        x :: List.replicate (ys.length - (k + 1)) x := by
      rw [← List.replicate_succ]
      congr 1
      omega
    rw [List.range_succ, List.foldlM_append, ih (by omega), ok_bind, List.foldlM_cons,
      hf k (by omega), ok_bind, write_eq (by omega), ok_bind, List.foldlM_nil, pure_eq,
      List.take_succ_eq_append_getElem (by omega), hrest, List.set_append_right _ _ (by simp),
      List.length_take_of_le (by omega), Nat.sub_self, List.set_cons_zero, List.append_assoc,
      List.singleton_append]

/-- **What a filled sequence holds**: at each place what the loop computes for it. -/
theorem fill_eq {ys : List α} (x : α) {f : Nat → Guarded α}
    (hf : ∀ i (hi : i < ys.length), f i = .ok ys[i]) : fill ys.length x f = .ok ys := by
  rw [fill, make_eq, ok_bind, Int.toNat_natCast, foldlM_write x hf le_rfl]
  simp

theorem fill_map (xs : List α) (y : β) (g : α → β) :
    fill xs.length y (fun i => do return g (← read xs i)) = .ok (xs.map g) := by
  rw [← List.length_map g]
  refine fill_eq y fun i hi => ?_
  rw [List.length_map] at hi
  simp [read_eq hi]

/-- A loop that appends what it computes for each place. -/
theorem mapM_eq {ys : List α} {f : Nat → Guarded α}
    (hf : ∀ i (hi : i < ys.length), f i = .ok ys[i]) :
    (List.range ys.length).mapM f = .ok ys := by
  induction ys generalizing f with
  | nil => rfl
  | cons y ys ih =>
    have hfirst : f 0 = .ok y := hf 0 (by simp)
    have hrest : (List.range ys.length).mapM (fun i => f (i + 1)) = .ok ys :=
      ih fun i hi => hf (i + 1) (by simpa using hi)
    rw [List.length_cons, List.range_succ_eq_map, List.mapM_cons, hfirst, ok_bind, List.mapM_map]
    exact congrArg (fun out : Guarded (List α) => out >>= fun rest => pure (y :: rest)) hrest

/-- A loop over the places of two sequences of one length. -/
theorem foldlM_read {γ σ : Type} {xs : List α} {ys : List γ} (h : xs.length = ys.length)
    (f : σ → α → γ → σ) (s : σ) :
    (List.range xs.length).foldlM (fun s i => do return f s (← read xs i) (← read ys i)) s =
      .ok ((xs.zip ys).foldl (fun s p => f s p.1 p.2) s) := by
  induction xs generalizing ys s with
  | nil => rfl
  | cons x xs ih =>
    cases ys with
    | nil => cases h
    | cons y ys =>
      have hfirst : read (x :: xs) 0 = .ok x := rfl
      have hsecond : read (y :: ys) 0 = .ok y := rfl
      rw [List.length_cons, List.range_succ_eq_map, List.foldlM_cons, hfirst, ok_bind, hsecond,
        ok_bind, pure_eq, ok_bind, List.foldlM_map]
      exact ih (Nat.succ.inj h) (f s x y)

end Guarded

end Reckoner
