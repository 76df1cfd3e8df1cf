import Reckoner.Proofs.Collections

/-!
# Strings are joined as texts

Next to a string, a value of another kind is never taken as a number, and the string neither. No
kernel has a case for the two, except that an integer says how often a string is repeated or
replicated. An integer is widened before texts are joined, but the real that it is converted to
has no kernel with a string either, so that what is joined is the text of the integer itself.

What is left is the operator that joins texts, and the error for operands of unsupported types.
-/

namespace Reckoner

namespace Value

/-- The value is no string and no sequence. -/
structure BesideText (v : Value) : Prop where
  /-- It is no string, which would be joined as it is. -/
  not_text : v.kind ≠ .text
  /-- It is no sequence, whose items would be joined. -/
  not_sequence : v.items? = none

end Value

namespace Operator

open Value (BesideText widened)

variable {names : Names} {op : Operator} {l r v : Value} {s : Text}

/-- The operator counts with an integer how often it takes its left operand. -/
def Counting (op : Operator) (r : Value) : Prop := (op = times ∨ op = generate) ∧ ∃ n, r = .int n

/-! ### Steps -/

/-- No kernel takes a string on the right of a value of another kind. -/
theorem kernel_text_right (hv : v.kind ≠ .text) : op.kernel v (.text s) = none := by
  cases v with
  | text t => exact absurd rfl hv
  | _ => cases op <;> rfl

/-- On the left of a value of another kind, a string is taken as often as an integer says, and no
other kernel takes it. -/
theorem kernel_text_left (hv : v.kind ≠ .text) (hop : ¬ op.Counting v) :
    op.kernel (.text s) v = none := by
  cases v with
  | text t => exact absurd rfl hv
  | int n =>
    cases op with
    | times => exact absurd ⟨.inl rfl, n, rfl⟩ hop
    | generate => exact absurd ⟨.inr rfl, n, rfl⟩ hop
    | _ => rfl
  | _ => cases op <;> rfl

/-- A value that is widened next to a string has no kernel either. -/
theorem kernel_widened_left (hv : v.kind ≠ .text) {l' r' : Value}
    (hwiden : widen v (.text s) = some (l', r')) : op.kernel l' r' = none := by
  cases v with
  | int n =>
    cases hwiden
    exact kernel_text_right nofun
  | _ => cases hwiden

theorem kernel_widened_right (hv : v.kind ≠ .text) {l' r' : Value}
    (hwiden : widen (.text s) v = some (l', r')) : op.kernel l' r' = none := by
  cases v with
  | int n =>
    cases hwiden
    refine kernel_text_left nofun fun hop => ?_
    obtain ⟨-, m, hm⟩ := hop
    cases hm
  | _ => cases hwiden

/-- Without a kernel for the operands, widened or not, only their texts are left. -/
theorem direct_texts (hkernel : op.kernel l r = none)
    (hwidened : ∀ l' r', widen l r = some (l', r') → op.kernel l' r' = none) :
    op.direct names l r =
      if op.joinsTexts && textual l r then
        (op.kernel (.text (l.toText names)) (.text (r.toText names))).map fun answer =>
          ([.stringified op.symbol l.typeName r.typeName], answer)
      else none := by
  cases hwiden : widen l r with
  | none => simp [direct, hkernel, hwiden]
  | some w =>
    obtain ⟨l', r'⟩ := w
    simp [direct, hkernel, hwiden, hwidened l' r' hwiden]

theorem direct_text_left (hv : v.kind ≠ .text) (hop : ¬ op.Counting v) :
    op.direct names (.text s) v =
      if op.joinsTexts && textual (.text s) v then
        (op.kernel (.text s) (.text (v.toText names))).map fun answer =>
          ([.stringified op.symbol Kind.text.name v.typeName], answer)
      else none :=
  direct_texts (kernel_text_left hv hop) fun _ _ => kernel_widened_right hv

theorem direct_text_right (hv : v.kind ≠ .text) :
    op.direct names v (.text s) =
      if op.joinsTexts && textual v (.text s) then
        (op.kernel (.text (v.toText names)) (.text s)).map fun answer =>
          ([.stringified op.symbol v.typeName Kind.text.name], answer)
      else none :=
  direct_texts (kernel_text_right hv) fun _ _ => kernel_widened_left hv

/-! ### Joining and refusing -/

theorem not_counting_plus : ¬ plus.Counting v := fun hop => by
  obtain ⟨h | h, -⟩ := hop <;> cases h

theorem textual_beside (hv : v.BesideText) :
    textual (.text s) v = true ∧ textual v (.text s) = true := by
  have htext : (Value.text s).items? = none := rfl
  constructor <;> simp [textual, htext, hv.not_sequence, Value.kind]

theorem outcome_join_left (hv : v.BesideText) :
    plus.outcome names (.text s) v = .ok (.text (s ++ v.toText names)) := by
  have hdirect : plus.direct names (.text s) v =
      some ([.stringified plus.symbol Kind.text.name v.typeName],
        .ok (.text (s ++ v.toText names))) := by
    rw [direct_text_left hv.not_text not_counting_plus, (textual_beside hv).1]
    rfl
  exact outcome_direct hdirect

theorem outcome_join_right (hv : v.BesideText) :
    plus.outcome names v (.text s) = .ok (.text (v.toText names ++ s)) := by
  have hdirect : plus.direct names v (.text s) =
      some ([.stringified plus.symbol v.typeName Kind.text.name],
        .ok (.text (v.toText names ++ s))) := by
    rw [direct_text_right hv.not_text, (textual_beside hv).2]
    rfl
  exact outcome_direct hdirect

theorem joinsTexts_false (hop : op ≠ plus) : op.joinsTexts = false := by
  simpa [joinsTexts] using hop

theorem refuses_text_left (hv : v.BesideText) (hplus : op ≠ plus) (hop : ¬ op.Counting v) :
    op.Refuses names (.text s) v := by
  refine refuses_of_none rfl hv.not_sequence ?_
  rw [direct_text_left hv.not_text hop, joinsTexts_false hplus]
  rfl

theorem refuses_text_right (hv : v.BesideText) (hplus : op ≠ plus) :
    op.Refuses names v (.text s) := by
  refine refuses_of_none hv.not_sequence rfl ?_
  rw [direct_text_right hv.not_text, joinsTexts_false hplus]
  rfl

/-! ### The law -/

/-- **Strings are joined as texts** and never taken as numbers. Next to a value that is no string
and no sequence,

1. the sum is the string and the text of the value, in the order of the operands; the text is that
   of the value as it is;
2. every other operator refuses the types of both, on either side, unless the value is an integer
   on the right that says how often the string is taken;
3. an integer on the right repeats or replicates the string, if the result is not too large. -/
theorem evaluate_text (names : Names) (s : Text) (v : Value) (hv : v.BesideText) :
    (plus.outcome names (.text s) v = .ok (.text (s ++ v.toText names)) ∧
      plus.outcome names v (.text s) = .ok (.text (v.toText names ++ s))) ∧
    (∀ op, op ≠ plus → op.Refuses names v (.text s) ∧
      (¬ op.Counting v → op.Refuses names (.text s) v)) ∧
    ∀ n, v = .int n →
      times.outcome names (.text s) v = (
        if 0 ≤ n.toInt ∧ n.toInt * s.length ≤ 2 ^ 24 then
          .ok (.text (List.replicate n.toInt.toNat s).flatten)
        else .error (.outsideDomain (some v) 2 "*")) ∧
      generate.outcome names (.text s) v =
        if 0 ≤ n.toInt ∧ n.toInt ≤ 2 ^ 24 then
          .ok (.array .text (List.replicate n.toInt.toNat (.text s)))
        else .error (.outsideDomain (some v) 2 "#") := by
  refine ⟨⟨outcome_join_left hv, outcome_join_right hv⟩,
    fun op hplus => ⟨refuses_text_right hv hplus, refuses_text_left hv hplus⟩, ?_⟩
  rintro n rfl
  exact ⟨outcome_repeat names s n, outcome_generate names (.text s) n⟩

/-- An integer is joined as it is written, and no number is made of a string that looks like
one. -/
theorem three_joined : (Value.int 3).BesideText ∧
    plus.outcome (fun _ => []) (.text "4") (.int 3) = .ok (.text "43") ∧
    times.Refuses (fun _ => []) (.int 3) (.text "4") := by
  have hthree : (Value.int 3).BesideText := ⟨nofun, rfl⟩
  obtain ⟨⟨hjoin, -⟩, hothers, -⟩ := evaluate_text (fun _ => []) "4" (.int 3) hthree
  exact ⟨hthree, hjoin, (hothers times nofun).1⟩

end Operator

end Reckoner
