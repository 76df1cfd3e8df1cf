import Mathlib.Tactic
import Reckoner.Stream.Deflate

/-!
# Stored data inflates

Data that was wrapped without compression is recovered whole: every block is read in one step,
which leaves the reader in front of the next block with no bits pending.
-/

namespace Reckoner

namespace Deflate

theorem lowBytes_value {n : Nat} (h : n < 65536) : ∃ a b, lowBytes n = [a, b] ∧
    a.toNat + 256 * b.toNat = n := by
  refine ⟨_, _, rfl, ?_⟩
  simp only [Nat.toUInt8, UInt8.toNat_ofNat']
  omega

/-- The three bits in front of a stored block. -/
theorem takeBits_head (final : Bool) (rest : Text) (offset : Nat) :
    takeBits 3 ⟨(if final then 1 else 0) :: rest, offset, 0, 0⟩
      = .ok (if final then 1 else 0, ⟨rest, offset + 1, 0, 5⟩) := by
  cases final
  · simp [takeBits, fill, bind, Except.bind, pure, Except.pure]
  · simp [takeBits, fill, bind, Except.bind, pure, Except.pure]

/-- Before a block there is always another step to take. -/
theorem run_block (fuel : Nat) (inp : Input) (out : Array UInt8) :
    run (fuel + 1) .block inp out =
      match step .block inp out with
      | (out, .error e) => (out, some e)
      | (out, .ok (phase, inp)) => run fuel phase inp out := rfl

/-- A stored block is read in one step. -/
theorem step_storedBlock {t : Text} (h : t.length ≤ 65535) (final : Bool) (rest : Text)
    (offset : Nat) (out : Array UInt8) :
    ∃ next, step .block ⟨storedBlock final t ++ rest, offset, 0, 0⟩ out
      = (out ++ t.toArray, .ok (if final then .done else .block, ⟨rest, next, 0, 0⟩)) := by
  obtain ⟨a, b, hab, hlen⟩ := lowBytes_value (n := t.length) (by omega)
  obtain ⟨c, d, hcd, hcheck⟩ := lowBytes_value (n := 65535 - t.length) (by omega)
  refine ⟨offset + 1 + 4, ?_⟩
  have hbytes : storedBlock final t ++ rest
      = (if final then 1 else 0) :: a :: b :: c :: d :: (t ++ rest) := by
    rw [storedBlock, hab, hcd]
    simp
  have hfits : ¬ (t ++ rest).length < t.length := by simp
  rw [hbytes, step, takeBits_head]
  simp only [hlen, hcheck, if_neg hfits]
  cases final
  · simp
  · simp

theorem length_storeBlocks (blocks : Nat) (t : Text) :
    t.length + 5 ≤ (storeBlocks blocks t).length := by
  have hblock : ∀ final u, (storedBlock final u).length = u.length + 5 := by
    intro final u
    simp [storedBlock, lowBytes]
  induction blocks generalizing t with
  | zero => rw [storeBlocks, hblock]
  | succ blocks ih =>
    rw [storeBlocks]
    split
    · rw [hblock]
    · have := ih (t.drop 65535)
      rw [List.length_drop] at this
      rw [List.length_append, hblock, List.length_take]
      omega

/-- The blocks of a text are read one after another. The last one takes two steps: one reads it, and
one ends the data. -/
theorem run_storeBlocks (blocks : Nat) {t : Text} {fuel : Nat} (offset : Nat) (out : Array UInt8)
    (hlen : t.length ≤ 65535 * (blocks + 1)) (hfuel : blocks + 2 ≤ fuel) :
    run fuel .block ⟨storeBlocks blocks t, offset, 0, 0⟩ out = (out ++ t.toArray, none) := by
  have hlast : ∀ {fuel : Nat} {t : Text} (offset : Nat) (out : Array UInt8), t.length ≤ 65535 →
      2 ≤ fuel →
      run fuel .block ⟨storedBlock true t, offset, 0, 0⟩ out = (out ++ t.toArray, none) := by
    intro fuel t offset out ht hfuel
    obtain ⟨k, rfl⟩ : ∃ k, fuel = k + 2 := ⟨fuel - 2, by omega⟩
    obtain ⟨next, hstep⟩ := step_storedBlock ht true [] offset out
    rw [List.append_nil] at hstep
    rw [run_block, hstep]
    rfl
  induction blocks generalizing t fuel offset out with
  | zero =>
    rw [storeBlocks]
    exact hlast offset out (by omega) hfuel
  | succ blocks ih =>
    rw [storeBlocks]
    split
    · rename_i hsmall
      exact hlast offset out hsmall (by omega)
    · rename_i hbig
      obtain ⟨k, rfl⟩ : ∃ k, fuel = k + 1 := ⟨fuel - 1, by omega⟩
      have htake : (t.take 65535).length ≤ 65535 := by rw [List.length_take]; omega
      obtain ⟨next, hstep⟩ :=
        step_storedBlock htake false (storeBlocks blocks (t.drop 65535)) offset out
      rw [run_block, hstep]
      simp only [Bool.false_eq_true, if_false]
      rw [ih next _ (by rw [List.length_drop]; omega) (by omega), Array.append_assoc]
      simp only [List.append_toArray, List.take_append_drop]

/-- **Inflating undoes storing.** -/
theorem inflate_store (t : Text) : inflate (store t) = (t, none) := by
  have hlen := length_storeBlocks (t.length / 65535 + 1) t
  unfold inflate store
  rw [run_storeBlocks (t.length / 65535 + 1) 0 #[] (by omega) (by omega)]
  simp

end Deflate

end Reckoner
