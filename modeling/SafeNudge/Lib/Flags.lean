import Mathlib.Algebra.Order.Ring.Int
import Mathlib.Tactic.Common

/-!
# Flags

A vector of flags that are only ever set. Setting a flag that was not set counts one more
(`count_mark`), and flags that are set only below `m` are at most `m` (`count_le`).
-/

namespace Lib

variable {n m i : Nat} {v : Vector Bool n}

theorem setIfInBounds_eq_set {α : Type} {v : Vector α n} {a : α} (h : i < n) :
    v.setIfInBounds i a = v.set i a := by
  ext j hj
  rw [Vector.getElem_setIfInBounds, Vector.getElem_set]

theorem count_mark (h : v[i]? = some false) :
    (v.setIfInBounds i true).count true = v.count true + 1 := by
  obtain ⟨hi, hv⟩ := Vector.getElem?_eq_some_iff.1 h
  rw [setIfInBounds_eq_set hi, Vector.count_set]
  simp [hv]

theorem getElem_mark {j : Nat} (hj : j < n) :
    (v.setIfInBounds i true)[j] = true ↔ j = i ∨ v[j] = true := by
  rw [Vector.getElem_setIfInBounds]
  split
  · simp [*]
  · simp [Ne.symm ‹_›]

theorem count_le (h : ∀ j (hj : j < n), v[j] = true → j < m) : v.count true ≤ m := by
  have hdrop : (v.toList.drop m).count true = 0 := by
    refine List.count_eq_zero.2 fun hm => ?_
    obtain ⟨j, hj, hv⟩ := List.getElem_of_mem hm
    rw [List.getElem_drop, Vector.getElem_toList] at hv
    have := h _ _ hv
    omega
  have hsplit : v.toList.count true = (v.toList.take m).count true := by
    conv_lhs => rw [← List.take_append_drop m v.toList, List.count_append, hdrop, Nat.add_zero]
  have hlen := List.length_take_le m v.toList
  rw [← Vector.count_toList, hsplit]
  exact Nat.le_trans List.count_le_length hlen

end Lib
