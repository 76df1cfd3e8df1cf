import Mathlib.Tactic
import Reckoner.Expr.Evaluate
import Reckoner.Proofs.Decoding
import Reckoner.Proofs.Runs

/-!
# Sequences as literals and as expressions

A sequence in a literal becomes an array if an array can be made of its items, and an array
expression looks at the kinds of its items. A tree of sequences over scalars has the same value both
ways, whatever its shape is: the relation `Literal.Denotes` puts an array expression in the place of
each sequence and a constant in the place of each scalar, and the two values are compared along it.

Such an expression exists if and only if all scalars have values. Otherwise decoding stops at the
first one that has none, since it goes through the tree in the order in which the scalars are
written.
-/

namespace Reckoner

namespace Literal

open Yaml (Node Document AnchorId)

open Run

/-! ### Trees of sequences -/

mutual

/-- The node is a scalar, or a sequence of such nodes. -/
def Tree : Node → Prop
  | .scalar .. => True
  | .sequence items => Trees items
  | .mapping .. | .alias .. => False

/-- All nodes of the list are such trees. -/
def Trees : List Node → Prop
  | [] => True
  | n :: rest => Tree n ∧ Trees rest

end

mutual

/-- What the scalars of a tree are decoded to, in the order in which they are written. -/
def scalars : Node → List (Except Error Value)
  | .scalar line tag plain t => [scalar line tag plain t]
  | .sequence items => scalarsOf items
  | .mapping .. | .alias .. => []

/-- What the scalars of some nodes mean, from left to right. -/
def scalarsOf : List Node → List (Except Error Value)
  | [] => []
  | n :: rest => scalars n ++ scalarsOf rest

end

mutual

/-- The expression has an array for each sequence and a constant for each scalar. -/
inductive Denotes : Node → Expr → Prop
  /-- A scalar is a constant. -/
  | scalar {line : Nat} {tag : Option Text} {plain : Bool} {t : Text} {v : Value} :
    scalar line tag plain t = .ok v → Denotes (.scalar line tag plain t) (.const (some v))
  /-- A sequence is an array of what its items denote. -/
  | sequence {items : List Node} {es : List Expr} :
    DenotesAll items es → Denotes (.sequence items) (.array es)

/-- Nodes and expressions that denote the same, one by one. -/
inductive DenotesAll : List Node → List Expr → Prop
  | nil : DenotesAll [] []
  | cons {n : Node} {rest : List Node} {e : Expr} {es : List Expr} :
    Denotes n e → DenotesAll rest es → DenotesAll (n :: rest) (e :: es)

end

/-! ### Trees whose scalars have values -/

variable {d : Document} {follow : AnchorId → Decoding Value}

mutual

/-- Decoding a tree gives the value of its expression, and evaluating that changes nothing. -/
theorem Denotes.agree : ∀ {n : Node} {e : Expr}, Denotes n e →
    ∃ v, decodeNode d follow n = result (.ok v) ∧
      ∀ fs env w, (e.eval fs env).exec w = (.ok (some v), w)
  | _, _, .scalar (v := v) hv =>
    ⟨v, by rw [decodeNode, hv], fun fs env w => by rw [Expr.eval]; rfl⟩
  | _, _, .sequence hitems => by
    obtain ⟨vs, hdecode, heval⟩ := hitems.agree
    refine ⟨Value.collect vs, ?_, fun fs env w => ?_⟩
    · rw [decodeNode_sequence, hdecode, result_ok_bind]
    · rw [Expr.eval, exec_bind_ok (heval fs env w), exec_pure]

theorem DenotesAll.agree : ∀ {items : List Node} {es : List Expr}, DenotesAll items es →
    ∃ vs, decodeNodes d follow items = result (.ok vs) ∧
      ∀ fs env w, (Expr.evalItems env (Expr.deferAll fs es)).exec w = (.ok vs, w)
  | _, _, .nil =>
    ⟨[], by rw [decodeNodes, pure_eq], fun fs env w => by rw [Expr.deferAll]; rfl⟩
  | _, _, .cons (e := e) hn hrest => by
    obtain ⟨v, hdecode, heval⟩ := hn.agree
    obtain ⟨vs, hdecode', heval'⟩ := hrest.agree
    refine ⟨v :: vs, ?_, fun fs env w => ?_⟩
    · rw [decodeNodes_cons, hdecode, result_ok_bind, hdecode', result_ok_bind]
    · have hitem : (Expr.evalRequired env ⟨e, e.eval fs⟩).exec w = (.ok v, w) := by
        rw [Expr.evalRequired, exec_bind_ok (heval fs env w), exec_pure]
      rw [Expr.deferAll, Expr.evalItems, exec_bind_ok hitem, exec_bind_ok (heval' fs env w),
        exec_pure]

end

mutual

/-- A tree whose scalars all have values has an expression. -/
theorem exists_denotes : ∀ {n : Node}, Tree n → (∀ r ∈ scalars n, ∃ v, r = .ok v) →
    ∃ e, Denotes n e
  | .scalar .., _, h => by
    obtain ⟨v, hv⟩ := h _ (by rw [scalars]; exact List.mem_cons_self)
    exact ⟨_, .scalar hv⟩
  | .sequence items, hn, h => by
    rw [Tree] at hn
    rw [scalars] at h
    obtain ⟨es, hes⟩ := exists_denotesAll hn h
    exact ⟨_, .sequence hes⟩
  | .mapping .., hn, _ => by rw [Tree] at hn; exact hn.elim
  | .alias .., hn, _ => by rw [Tree] at hn; exact hn.elim

theorem exists_denotesAll : ∀ {items : List Node}, Trees items →
    (∀ r ∈ scalarsOf items, ∃ v, r = .ok v) → ∃ es, DenotesAll items es
  | [], _, _ => ⟨[], .nil⟩
  | n :: rest, hitems, h => by
    rw [Trees] at hitems
    rw [scalarsOf] at h
    obtain ⟨hn, hrest⟩ := List.forall_mem_append.mp h
    obtain ⟨e, he⟩ := exists_denotes hitems.1 hn
    obtain ⟨es, hes⟩ := exists_denotesAll hitems.2 hrest
    exact ⟨_, .cons he hes⟩

end

/-! ### Trees with a scalar that has no value -/

/-- The error is the first one among the results. -/
inductive FirstError (e : Error) : List (Except Error Value) → Prop
  /-- It is the first result. -/
  | here {rest : List (Except Error Value)} : FirstError e (.error e :: rest)
  /-- It comes behind a value. -/
  | later {v : Value} {rest : List (Except Error Value)} :
    FirstError e rest → FirstError e (.ok v :: rest)

theorem ok_or_firstError (rs : List (Except Error Value)) :
    (∀ r ∈ rs, ∃ v, r = .ok v) ∨ ∃ e, FirstError e rs := by
  induction rs with
  | nil => exact .inl nofun
  | cons r rest ih =>
    cases r with
    | error e => exact .inr ⟨e, .here⟩
    | ok v =>
      obtain hrest | ⟨e, he⟩ := ih
      · exact .inl (List.forall_mem_cons.mpr ⟨⟨v, rfl⟩, hrest⟩)
      · exact .inr ⟨e, .later he⟩

theorem firstError_append {e : Error} {xs ys : List (Except Error Value)}
    (h : FirstError e (xs ++ ys)) :
    FirstError e xs ∨ (∀ r ∈ xs, ∃ v, r = .ok v) ∧ FirstError e ys := by
  induction xs with
  | nil => exact .inr ⟨nofun, h⟩
  | cons x xs ih =>
    cases h with
    | here => exact .inl .here
    | later h =>
      obtain hxs | ⟨hxs, hys⟩ := ih h
      · exact .inl (.later hxs)
      · exact .inr ⟨List.forall_mem_cons.mpr ⟨⟨_, rfl⟩, hxs⟩, hys⟩

mutual

/-- Decoding a tree gives the error of the first scalar without a value. -/
theorem decodeNode_error {e : Error} : ∀ {n : Node}, Tree n → FirstError e (scalars n) →
    decodeNode d follow n = result (.error e)
  | .scalar line tag plain t, _, h => by
    rw [scalars] at h
    rw [decodeNode]
    generalize scalar line tag plain t = r at h ⊢
    cases h with
    | here => rfl
    | later h => cases h
  | .sequence items, hn, h => by
    rw [Tree] at hn
    rw [scalars] at h
    rw [decodeNode_sequence, decodeNodes_error hn h, result_error_bind]
  | .mapping .., hn, _ => by rw [Tree] at hn; exact hn.elim
  | .alias .., hn, _ => by rw [Tree] at hn; exact hn.elim

/-- An error of a later item comes to be met, as the items in front of it have values. -/
theorem decodeNodes_error {e : Error} : ∀ {items : List Node}, Trees items →
    FirstError e (scalarsOf items) → decodeNodes d follow items = result (.error e)
  | [], _, h => by rw [scalarsOf] at h; cases h
  | n :: rest, hitems, h => by
    rw [Trees] at hitems
    rw [scalarsOf] at h
    rw [decodeNodes_cons]
    obtain hn | ⟨hn, hrest⟩ := firstError_append h
    · rw [decodeNode_error hitems.1 hn, result_error_bind]
    · obtain ⟨_, hdenotes⟩ := exists_denotes hitems.1 hn
      obtain ⟨v, hv, -⟩ : ∃ v, decodeNode d follow n = result (.ok v) ∧ _ := hdenotes.agree
      rw [hv, result_ok_bind, decodeNodes_error hitems.2 hrest, result_error_bind]

end

/-- **Literals and array expressions build the same sequences.** If all scalars of a tree have
values, there is an expression with arrays for its sequences and constants for its scalars, and
evaluating that gives just the value of the tree. Otherwise decoding the tree gives the error of the
first scalar that has no value. -/
theorem decodeNode_tree (d : Document) (follow : AnchorId → Decoding Value) {n : Node}
    (hn : Tree n) :
    ((∀ r ∈ scalars n, ∃ v, r = .ok v) → ∃ e, Denotes n e) ∧
    (∀ e, Denotes n e → ∃ v, decodeNode d follow n = result (.ok v) ∧
      ∀ fs env w, (e.eval fs env).exec w = (.ok (some v), w)) ∧
    ((∀ r ∈ scalars n, ∃ v, r = .ok v) ∨ ∃ e, FirstError e (scalars n)) ∧
    ∀ e, FirstError e (scalars n) → decodeNode d follow n = result (.error e) :=
  ⟨exists_denotes hn, fun _ he => he.agree, ok_or_firstError _, fun _ => decodeNode_error hn⟩

/-- Two truth values in a sequence, a string and nothing at all in a sequence. -/
def mixed : Node :=
  .sequence [.sequence [.scalar 1 none true "true", .scalar 1 none true "false"],
    .scalar 2 none true "a", .sequence []]

/-- Two scalars without values, the first of them as an item of an item. -/
def hollow : Node :=
  .sequence [.scalar 1 none true "true", .sequence [.scalar 2 none true "null"],
    .scalar 3 none true "~"]

/-- The one has the value of an expression, and the other one the error of its second line. -/
theorem mixed_decoded : Tree mixed ∧ Tree hollow ∧
    (∃ e, Denotes mixed e ∧ ∀ fs env w, (e.eval fs env).exec w =
      (.ok (some (.list [.array .bool [.bool true, .bool false], .text "a", .array .int []])), w)) ∧
    decode ⟨hollow, []⟩ = result (.error (atLine 2 "null is not a value")) := by
  have hmixed : Tree mixed := by simp [mixed, Tree, Trees]
  have hhollow : Tree hollow := by simp [hollow, Tree, Trees]
  have hvalue : decode ⟨mixed, []⟩ = result
      (.ok (.list [.array .bool [.bool true, .bool false], .text "a", .array .int []])) := by rfl
  have hscalars : scalars mixed = [.ok (.bool true), .ok (.bool false), .ok (.text "a")] := by rfl
  have hfirst : FirstError (atLine 2 "null is not a value") (scalars hollow) := by
    have hresults : scalars hollow = [.ok (.bool true),
      .error (atLine 2 "null is not a value"), .error (atLine 3 "null is not a value")] := by rfl
    exact hresults ▸ .later .here
  obtain ⟨hdenotes, hagree, -, -⟩ := decodeNode_tree ⟨mixed, []⟩ (fun _ => endless) hmixed
  refine ⟨hmixed, hhollow, ?_, (decodeNode_tree ⟨hollow, []⟩ _ hhollow).2.2.2 _ hfirst⟩
  obtain ⟨e, he⟩ := hdenotes (by simp [hscalars])
  obtain ⟨v, hv, heval⟩ := hagree e he
  obtain rfl := Except.ok.inj (result_injective (hv.symm.trans hvalue))
  exact ⟨e, he, heval⟩

end Literal

end Reckoner
