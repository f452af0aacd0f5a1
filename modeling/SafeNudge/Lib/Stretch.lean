import Mathlib.Algebra.Order.Ring.Int
import Mathlib.Data.List.Basic
import Mathlib.Tactic.Common

/-!
# Stretches of a list

A list read from its head backwards in time. `stretches p c l` counts the entries with `p` that do
not continue, by `c`, the entry before them. Where entries with `p` continue exactly each other,
they stand together if and only if there is at most one stretch (`stretches_le_one_iff`).
-/

namespace Lib

variable {α : Type} {p : α → Prop} {c : α → α → Prop} [DecidablePred p] [DecidableRel c]
  {a : α} {l : List α}

/-- How often a stretch of entries with `p` begins. -/
def stretches (p : α → Prop) (c : α → α → Prop) [DecidablePred p] [DecidableRel c] : List α → Nat
  | [] => 0
  | a :: l => stretches p c l + if p a ∧ ∀ b ∈ l.head?, ¬c a b then 1 else 0

/-- Nothing without `p` stands between two entries with `p`. -/
def Together (p : α → Prop) (l : List α) : Prop :=
  ∀ a m b, [a, m, b].Sublist l → p a → p b → p m

theorem stretches_of_not (h : ∀ a ∈ l, ¬p a) : stretches p c l = 0 := by
  induction l with
  | nil => rfl
  | cons a l ih =>
    obtain ⟨ha, hl⟩ := List.forall_mem_cons.1 h
    rw [stretches, ih hl, if_neg fun hpa => ha hpa.1]

/-- Every entry with `p` belongs to a stretch. -/
theorem stretches_eq_zero_iff (hc : ∀ a b, p a → (c a b ↔ p b)) :
    stretches p c l = 0 ↔ ∀ a ∈ l, ¬p a := by
  refine ⟨fun h => ?_, stretches_of_not⟩
  induction l with
  | nil => exact List.forall_mem_nil _
  | cons a l ih =>
    rw [stretches, Nat.add_eq_zero_iff] at h
    obtain ⟨hzero, hif⟩ := h
    have hl := ih hzero
    refine List.forall_mem_cons.2 ⟨fun ha => ?_, hl⟩
    have hhead : ∀ b ∈ l.head?, ¬c a b := fun b hb => mt (hc a b ha).1 (hl b (List.mem_of_head? hb))
    rw [if_pos ⟨ha, hhead⟩] at hif
    exact Nat.one_ne_zero hif

theorem one_le_stretches (hc : ∀ a b, p a → (c a b ↔ p b)) (ha : a ∈ l) (hp : p a) :
    1 ≤ stretches p c l := by
  apply Nat.one_le_iff_ne_zero.2
  intro h0
  exact (stretches_eq_zero_iff hc).1 h0 a ha hp

/-- A list whose entries with `p` stand together, with one more in front of it. -/
theorem together_cons_iff {b : α} :
    Together p (a :: b :: l) ↔ Together p (b :: l) ∧ (p a → ¬p b → ∀ x ∈ l, ¬p x) := by
  constructor
  · intro h
    refine ⟨fun x m y hs => h x m y (hs.cons _), fun ha hb x hx hpx => ?_⟩
    have hs : [a, b, x].Sublist (a :: b :: l) :=
      ((List.singleton_sublist.2 hx).cons_cons b).cons_cons a
    exact hb (h a b x hs ha hpx)
  · rintro ⟨h, hab⟩ x m y hs hx hy
    cases hs with
    | cons _ hs => exact h x m y hs hx hy
    | cons_cons _ hs =>
      by_cases hb : p b
      · cases hs with
        | cons _ hs => exact h b m y (hs.cons_cons b) hb hy
        | cons_cons => exact hb
      · have hyl : y ∈ b :: l := hs.subset (by simp)
        rcases List.mem_cons.1 hyl with rfl | hyl
        · exact absurd hy hb
        · exact absurd hy (hab hx hb y hyl)

theorem stretches_le_one_iff (hc : ∀ a b, p a → (c a b ↔ p b)) :
    stretches p c l ≤ 1 ↔ Together p l := by
  induction l with
  | nil => simp [stretches, Together]
  | cons a l ih =>
    cases l with
    | nil =>
      have htogether : Together p [a] := fun x m y hs => absurd hs.length_le (by simp)
      refine iff_of_true ?_ htogether
      rw [stretches, stretches, Nat.zero_add]
      split
      · exact Nat.le_refl 1
      · exact Nat.zero_le 1
    | cons b l =>
      rw [together_cons_iff, ← ih, stretches]
      simp only [List.head?_cons, Option.mem_def, Option.some.injEq, forall_eq']
      by_cases ha : p a
      · simp only [hc a b ha]
        by_cases hb : p b
        · simp [hb]
        · have hzero : stretches p c (b :: l) = 0 ↔ ∀ x ∈ l, ¬p x := by
            rw [stretches_eq_zero_iff hc, List.forall_mem_cons, and_iff_right hb]
          rw [if_pos ⟨ha, hb⟩, ← hzero]
          constructor
          · intro h
            exact ⟨by omega, fun _ _ => by omega⟩
          · intro ⟨_, h⟩
            have := h ha hb
            omega
      · simp [ha]

end Lib
