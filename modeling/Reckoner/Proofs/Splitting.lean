import Mathlib.Tactic
import Reckoner.Text.Basic

/-!
# Splitting texts

The pieces of a text between the occurrences of a byte: the lines of a stream, the tokens of a line
and the parts of a path.
-/

namespace Reckoner

namespace Text

variable {c : UInt8} {t : Text}

theorem splitAtByte_ne_nil (c : UInt8) (t : Text) : splitAtByte c t ≠ [] := by
  cases t with
  | nil => exact List.cons_ne_nil _ _
  | cons b t =>
    rw [splitAtByte]
    split
    · exact List.cons_ne_nil _ _
    · split
      · exact List.cons_ne_nil _ _
      · exact List.cons_ne_nil _ _

theorem splitAtByte_of_notMem (h : c ∉ t) : splitAtByte c t = [t] := by
  induction t with
  | nil => rfl
  | cons b t ih =>
    rw [List.mem_cons, not_or] at h
    rw [splitAtByte, if_neg (Ne.symm h.1), ih h.2]

theorem splitAtByte_append (h : c ∉ t) (rest : Text) :
    splitAtByte c (t ++ c :: rest) = t :: splitAtByte c rest := by
  induction t with
  | nil => rw [List.nil_append, splitAtByte, if_pos rfl]
  | cons b t ih =>
    rw [List.mem_cons, not_or] at h
    rw [List.cons_append, splitAtByte, if_neg (Ne.symm h.1), ih h.2]

/-- What is appended belongs to the last piece, as far as it has no further divisions. -/
theorem splitAtByte_last (c : UInt8) (t : Text) : ∃ front last, c ∉ last ∧
    ∀ u, splitAtByte c (t ++ u) = front ++ splitAtByte c (last ++ u) := by
  induction t with
  | nil => exact ⟨[], [], List.not_mem_nil, fun _ => rfl⟩
  | cons b t ih =>
    obtain ⟨front, last, hlast, hsplit⟩ := ih
    by_cases hb : b = c
    · refine ⟨[] :: front, last, hlast, fun u => ?_⟩
      rw [List.cons_append, splitAtByte, if_pos hb, hsplit, List.cons_append]
    · cases front with
      | nil =>
        refine ⟨[], b :: last, ?_, fun u => ?_⟩
        · exact List.not_mem_cons_of_ne_of_not_mem (Ne.symm hb) hlast
        · rw [List.cons_append, splitAtByte, if_neg hb, hsplit, List.nil_append, List.nil_append,
            List.cons_append, splitAtByte, if_neg hb]
      | cons piece front =>
        refine ⟨(b :: piece) :: front, last, hlast, fun u => ?_⟩
        rw [List.cons_append, splitAtByte, if_neg hb, hsplit]
        rfl

/-- Nothing is behind a division at the end. -/
theorem getLast?_splitAtByte (c : UInt8) (t : Text) :
    (splitAtByte c (t ++ [c])).getLast? = some [] := by
  obtain ⟨front, last, hlast, hsplit⟩ := splitAtByte_last c t
  rw [hsplit, splitAtByte_append hlast]
  simp [splitAtByte]

theorem mem_of_splitAtByte {piece : Text} {b : UInt8} (hpiece : piece ∈ splitAtByte c t)
    (hb : b ∈ piece) : b ∈ t := by
  induction t generalizing piece with
  | nil =>
    rw [List.mem_singleton.mp hpiece] at hb
    cases hb
  | cons a t ih =>
    rw [splitAtByte] at hpiece
    split at hpiece
    · rcases List.mem_cons.mp hpiece with rfl | hpiece
      · cases hb
      · exact List.mem_cons_of_mem a (ih hpiece hb)
    · rcases hsplit : splitAtByte c t with _ | ⟨first, pieces⟩
      · exact absurd hsplit (splitAtByte_ne_nil c t)
      · rw [hsplit] at hpiece ih
        rcases List.mem_cons.mp hpiece with rfl | hpiece
        · rcases List.mem_cons.mp hb with rfl | hb
          · exact List.mem_cons_self
          · exact List.mem_cons_of_mem a (ih List.mem_cons_self hb)
        · exact List.mem_cons_of_mem a (ih (List.mem_cons_of_mem first hpiece) hb)

end Text

end Reckoner
