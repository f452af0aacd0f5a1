import Mathlib.Algebra.BigOperators.Finprod
import Mathlib.Algebra.Order.BigOperators.Group.List
import Mathlib.Data.Int.Cast.Basic

/-!
# Changes of balances

Balances are a function from accounts to numbers, most of which a step leaves alone. `gain s f f'`
is what the accounts of `s` gained from `f` to `f'`; where only a few accounts changed it is a
finite sum over these (`gain_eq_zero`, `gain_eq_single`, `gain_univ`). `held s f` is what the
accounts of `s` hold; `held_change` follows it when accounts of a few places are opened, closed or
change.
-/

namespace Lib

open Function

variable {ι : Type} {f f' : ι → ℕ} {s : Set ι} {a b : ι}

/-- What the accounts of `s` gained together. -/
noncomputable def gain (s : Set ι) (f f' : ι → ℕ) : ℤ := ∑ᶠ i ∈ s, ((f' i : ℤ) - f i)

theorem gain_eq_zero (h : ∀ i ∈ s, f' i = f i) : gain s f f' = 0 := by
  refine finsum_mem_eq_zero_of_forall_eq_zero fun i hi => ?_
  rw [h i hi, sub_self]

/-- Only the accounts that changed count. -/
theorem gain_congr {u : Set ι} (h : ∀ i, f' i ≠ f i → (i ∈ s ↔ i ∈ u)) :
    gain s f f' = gain u f f' := by
  classical
  rw [gain, gain, finsum_mem_def, finsum_mem_def]
  refine finsum_congr fun i => ?_
  rw [Set.indicator_apply, Set.indicator_apply]
  by_cases hi : f' i = f i
  · rw [hi, sub_self, ite_self, ite_self]
  · rw [if_congr (h i hi) rfl rfl]

/-- Only one account of the set changed. -/
theorem gain_eq_single (ha : a ∈ s) (h : ∀ i ∈ s, i ≠ a → f' i = f i) :
    gain s f f' = (f' a : ℤ) - f a := by
  rw [gain, finsum_mem_def, finsum_eq_single _ a fun i hi => ?_, Set.indicator_of_mem ha]
  by_cases hs : i ∈ s
  · rw [Set.indicator_of_mem hs, h i hs hi, sub_self]
  · rw [Set.indicator_of_notMem hs]

theorem support_subset {T : Finset ι} (h : ∀ i ∉ T, f' i = f i) :
    (support fun i => (f' i : ℤ) - f i) ⊆ ↑T := by
  intro i hi
  by_contra hT
  exact hi (sub_eq_zero.2 (congrArg Nat.cast (h i hT)))

/-- All changes together, when the accounts outside `T` did not change. -/
theorem gain_univ {T : Finset ι} (h : ∀ i ∉ T, f' i = f i) :
    gain Set.univ f f' = ∑ i ∈ T, ((f' i : ℤ) - f i) := by
  rw [gain, finsum_mem_univ]
  exact finsum_eq_sum_of_support_subset _ (support_subset h)

/-! ## What a set of accounts holds -/

/-- What the accounts of `s` hold together. -/
noncomputable def held (s : Set ι) (f : ι → ℕ) : ℕ := ∑ᶠ i ∈ s, f i

theorem held_eq_sum {U : Finset ι} (h : s ⊆ ↑U) : held s f = ∑ i ∈ U, s.indicator f i := by
  rw [held, finsum_mem_def]
  exact finsum_eq_sum_of_support_subset _ ((Set.support_indicator_subset).trans h)

@[simp] theorem held_empty : held ∅ f = 0 := finsum_mem_empty

theorem held_congr (h : ∀ i ∈ s, f' i = f i) : held s f' = held s f := finsum_mem_congr rfl h

/-- Accounts that only gain. -/
theorem held_add (hs : s.Finite) (h : ∀ i ∈ s, f i ≤ f' i) :
    held s f' = held s f + held s fun i => f' i - f i := by
  rw [held, held, held, ← finsum_mem_add_distrib hs]
  exact finsum_mem_congr rfl fun i hi => (Nat.add_sub_of_le (h i hi)).symm

/-- Accounts are opened and closed in `T` and change there. One that is closed is emptied, and what
an opened one starts with was at its place already or came in. -/
theorem held_change {u : Set ι} {T : Finset ι} (hs : s.Finite)
    (hm : ∀ i ∉ T, (i ∈ u ↔ i ∈ s) ∧ (i ∈ s → f' i = f i))
    (hT : ∀ i ∈ T, i ∉ u → i ∈ s ∧ f' i = 0 ∨ i ∉ s ∧ f' i = f i) :
    u.Finite ∧
      held u f' + ∑ i ∈ T, f i = held s f + ∑ i ∈ T, f' i + held (u \ s) f := by
  classical
  have hU : s ⊆ ↑(hs.toFinset ∪ T) := fun i hi => by simp [hi]
  have hW : u ⊆ ↑(hs.toFinset ∪ T) := by
    intro i hi
    by_cases hi' : i ∈ T
    · simp [hi']
    · simp [(hm i hi').1.1 hi]
  have hsum : ∀ f : ι → ℕ, ∑ i ∈ T, f i = ∑ i ∈ hs.toFinset ∪ T, if i ∈ T then f i else 0 := by
    intro f
    rw [Finset.sum_ite_mem, Finset.union_inter_cancel_right]
  refine ⟨(Finset.finite_toSet _).subset hW, ?_⟩
  rw [held_eq_sum hU, held_eq_sum hW, held_eq_sum (Set.sdiff_subset.trans hW), hsum f, hsum f',
    ← Finset.sum_add_distrib, ← Finset.sum_add_distrib, ← Finset.sum_add_distrib]
  refine Finset.sum_congr rfl fun i _ => ?_
  by_cases hi : i ∈ T
  · by_cases hi' : i ∈ u
    · by_cases hi₀ : i ∈ s
      · simp [hi, hi', hi₀, Nat.add_comm]
      · simp [hi, hi', hi₀]
    · rcases hT i hi hi' with ⟨hi₀, h0⟩ | ⟨hi₀, h0⟩ <;> simp [hi, hi', hi₀, h0]
  · obtain ⟨hmem, hval⟩ := hm i hi
    by_cases hi₀ : i ∈ s
    · simp [hi, hmem.2 hi₀, hi₀, hval hi₀]
    · have hi' : i ∉ u := fun h => hi₀ (hmem.1 h)
      simp [hi, hi', hi₀]

end Lib
