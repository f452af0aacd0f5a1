import Mathlib.Data.Finsupp.Weight

/-!
# Custody pools

Several holders keep stakes in one balance. `Pool ι` is what such a balance consists of: the stake
of each holder, finitely many of them nonzero, and a surplus nobody has a stake in. Paying in,
releasing a whole stake and donating are its moves. A list of holders that is as long as the set of
members and has no repetition is a list of all members (`mem_iff_of_card`), so paying its stakes
out pays everything out but the surplus (`sum_stakes`).
-/

namespace Lib

variable {ι : Type}

@[ext]
structure Pool (ι : Type) where
  stake : ι →₀ ℕ
  surplus : ℕ

namespace Pool

/-- The holders with a stake. -/
def members (p : Pool ι) : Finset ι := p.stake.support

noncomputable def balance (p : Pool ι) : ℕ := p.stake.degree + p.surplus

/-- The pool nobody has paid into. -/
def empty : Pool ι := ⟨0, 0⟩

noncomputable def pay (p : Pool ι) (i : ι) (n : ℕ) : Pool ι := ⟨p.stake + .single i n, p.surplus⟩

/-- A holder takes out its whole stake. -/
noncomputable def release (p : Pool ι) (i : ι) : Pool ι := ⟨p.stake.erase i, p.surplus⟩

def donate (p : Pool ι) (n : ℕ) : Pool ι := ⟨p.stake, p.surplus + n⟩

variable {p : Pool ι} {i j : ι} {n : ℕ} {l : List ι}

theorem mem_members : i ∈ p.members ↔ p.stake i ≠ 0 := Finsupp.mem_support_iff

@[simp] theorem balance_empty : (empty : Pool ι).balance = 0 := by simp [balance, empty]

/-! ## Moves -/

@[simp] theorem degree_pay : (p.pay i n).stake.degree = p.stake.degree + n := by
  simp only [pay, map_add, Finsupp.degree_single]

theorem degree_release : (p.release i).stake.degree + p.stake i = p.stake.degree := by
  have h := congrArg Finsupp.degree (Finsupp.single_add_erase i p.stake)
  rw [map_add, Finsupp.degree_single] at h
  simp only [release]
  omega

@[simp] theorem balance_pay : (p.pay i n).balance = p.balance + n := by
  rw [balance, balance, degree_pay]
  simp only [pay]
  omega

theorem balance_release : (p.release i).balance + p.stake i = p.balance := by
  have h := @degree_release _ p i
  simp only [balance, release] at h ⊢
  omega

@[simp] theorem balance_donate : (p.donate n).balance = p.balance + n := by
  simp only [balance, donate, Nat.add_assoc]

theorem stake_pay_self : (p.pay i n).stake i = p.stake i + n := by simp [pay]

theorem stake_pay_of_ne (h : j ≠ i) : (p.pay i n).stake j = p.stake j := by
  simp [pay, Finsupp.single_eq_of_ne h]

@[simp] theorem stake_release_self : (p.release i).stake i = 0 := by simp [release]

theorem stake_release_of_ne (h : j ≠ i) : (p.release i).stake j = p.stake j := by
  simp [release, h]

theorem card_pay_new (h : p.stake i = 0) (hn : n ≠ 0) :
    (p.pay i n).members.card = p.members.card + 1 := by
  classical
  have : (p.pay i n).members = insert i p.members := by
    ext j
    by_cases hj : j = i
    · subst hj
      simp [mem_members, stake_pay_self, hn]
    · simp [mem_members, stake_pay_of_ne hj, hj]
  rw [this, Finset.card_insert_of_notMem (by simpa [mem_members] using h)]

theorem card_pay_old (h : p.stake i ≠ 0) : (p.pay i n).members.card = p.members.card := by
  congr 1
  ext j
  by_cases hj : j = i
  · subst hj
    simp [mem_members, stake_pay_self, h]
  · simp [mem_members, stake_pay_of_ne hj]

theorem card_release (h : p.stake i ≠ 0) : (p.release i).members.card + 1 = p.members.card := by
  classical
  have : (p.release i).members = p.members.erase i := by
    ext j
    by_cases hj : j = i
    · subst hj
      simp [mem_members]
    · simp [mem_members, stake_release_of_ne hj, hj]
  rw [this, Finset.card_erase_add_one (mem_members.2 h)]

/-! ## Lists of all members -/

/-- As many distinct members as there are members are all of them. -/
theorem mem_iff_of_card (hnd : l.Nodup) (hsub : ∀ i ∈ l, i ∈ p.members)
    (hlen : l.length = p.members.card) : i ∈ l ↔ i ∈ p.members := by
  classical
  have hs : l.toFinset ⊆ p.members := fun i hi => hsub i (List.mem_toFinset.1 hi)
  have : l.toFinset = p.members := by
    refine Finset.eq_of_subset_of_card_le hs ?_
    rw [List.toFinset_card_of_nodup hnd, hlen]
  rw [← this, List.mem_toFinset]

theorem length_of_mem_iff (hnd : l.Nodup) (h : ∀ i, i ∈ l ↔ i ∈ p.members) :
    l.length = p.members.card := by
  classical
  have : l.toFinset = p.members := by
    ext i
    rw [List.mem_toFinset, h]
  rw [← this, List.toFinset_card_of_nodup hnd]

/-- Their stakes add up to the balance less the surplus. -/
theorem sum_stakes (hnd : l.Nodup) (hsub : ∀ i ∈ l, i ∈ p.members)
    (hlen : l.length = p.members.card) : (l.map p.stake).sum + p.surplus = p.balance := by
  classical
  have : l.toFinset = p.stake.support := by
    ext i
    rw [List.mem_toFinset]
    exact mem_iff_of_card hnd hsub hlen
  rw [balance, Finsupp.degree_apply, ← this, ← List.sum_toFinset _ hnd]

end Pool

end Lib
