import SafeNudge.Lib.Guard

/-!
# Computations in lockstep

`Lockstep R x y`: two guarded computations both fail, or both succeed with results related by `R`.
`bind` follows two programs step by step; where a step gives both the same values, `next` is enough.
-/

namespace Lib

variable {ε α β γ δ : Type}

inductive Lockstep (R : α → β → Prop) : Except ε α → Except ε β → Prop where
  | ok {a : α} {b : β} : R a b → Lockstep R (.ok a) (.ok b)
  | error {e e' : ε} : Lockstep R (.error e) (.error e')

namespace Lockstep

variable {R : α → β → Prop} {S : γ → δ → Prop} {x : Except ε α} {y : Except ε β}

theorem mono {R' : α → β → Prop} (h : Lockstep R x y) (hR : ∀ a b, R a b → R' a b) :
    Lockstep R' x y := by
  cases h with
  | ok h => exact .ok (hR _ _ h)
  | error => exact .error

/-- Two computations that fail. -/
theorem of_ne_ok (hx : ∀ a, x ≠ .ok a) (hy : ∀ b, y ≠ .ok b) : Lockstep R x y := by
  cases x with
  | ok a => exact absurd rfl (hx a)
  | error e =>
    cases y with
    | ok b => exact absurd rfl (hy b)
    | error e' => exact .error

/-- Two computations that succeed with the same values. -/
theorem of_iff {x y : Except ε α} (h : ∀ a, x = .ok a ↔ y = .ok a) : Lockstep Eq x y := by
  cases x with
  | ok a =>
    rw [(h a).1 rfl]
    exact .ok rfl
  | error e =>
    cases y with
    | ok a => cases (h a).2 rfl
    | error e' => exact .error

theorem bind {f : α → Except ε γ} {g : β → Except ε δ} (h : Lockstep R x y)
    (hf : ∀ a b, x = .ok a → R a b → Lockstep S (f a) (g b)) : Lockstep S (x >>= f) (y >>= g) := by
  cases h with
  | ok hR => exact hf _ _ rfl hR
  | error => exact .error

/-- A step that gives both the same value. -/
theorem next {x y : Except ε α} {f : α → Except ε γ} {g : α → Except ε δ}
    (h : ∀ a, x = .ok a ↔ y = .ok a) (hf : ∀ a, x = .ok a → Lockstep S (f a) (g a)) :
    Lockstep S (x >>= f) (y >>= g) :=
  (of_iff h).bind fun a _ hx hab => hab ▸ hf a hx

/-- The same step. -/
theorem same {f : α → Except ε γ} {g : α → Except ε δ}
    (hf : ∀ a, x = .ok a → Lockstep S (f a) (g a)) : Lockstep S (x >>= f) (x >>= g) :=
  next (fun _ => .rfl) hf

theorem ite {p q : Prop} [Decidable p] [Decidable q] {x' : Except ε α} {y' : Except ε β}
    (h : p ↔ q) (hx : p → Lockstep R x y) (hy : ¬p → Lockstep R x' y') :
    Lockstep R (if p then x else x') (if q then y else y') := by
  by_cases hp : p
  · rw [if_pos hp, if_pos (h.1 hp)]
    exact hx hp
  · rw [if_neg hp, if_neg fun hq => hp (h.2 hq)]
    exact hy hp

end Lockstep

end Lib
