import Mathlib.Algebra.Order.Ring.Int
import Mathlib.Tactic.Common

/-!
# Runs with a history

A labelled transition system observed from outside: `Run init step h s` says that `s` is reached
from a start state by the steps recorded in `h`, newest first. Statements about the past of a
state ("the last `p` step was ...", "no `q` step since") are statements about `h`; `Latest p h
newer e` cuts the history at its latest entry `e` with `p`, and `newer` holds the entries after it.
-/

namespace Lib

variable {σ α ε : Type}

/-- One step of a run with the states before and after it. -/
structure Entry (σ α : Type) where
  pre : σ
  act : α
  post : σ

inductive Run (init : σ → Prop) (step : σ → α → σ → Prop) : List (Entry σ α) → σ → Prop where
  | start {s : σ} : init s → Run init step [] s
  | snoc {h : List (Entry σ α)} {s s' : σ} {a : α} :
      Run init step h s → step s a s' → Run init step (⟨s, a, s'⟩ :: h) s'

namespace Run

variable {init : σ → Prop} {step : σ → α → σ → Prop} {h : List (Entry σ α)} {s : σ}

/-- What holds at the start and is kept by every step holds of every reached state. -/
theorem invariant {P : σ → Prop} (hr : Run init step h s) (h0 : ∀ s, init s → P s)
    (hs : ∀ s a s', step s a s' → P s → P s') : P s := by
  induction hr with
  | start hi => exact h0 _ hi
  | snoc _ hst ih => exact hs _ _ _ hst ih

/-- Every entry of a history is a step from a reached state. -/
theorem mem {e : Entry σ α} (hr : Run init step h s) (he : e ∈ h) :
    step e.pre e.act e.post ∧ ∃ h', Run init step h' e.pre := by
  induction hr with
  | start => cases he
  | snoc hr hst ih =>
    rcases List.mem_cons.1 he with rfl | he
    · exact ⟨hst, _, hr⟩
    · exact ih he

/-- The part of a run before one of its entries is a run. -/
theorem older {newer older : List (Entry σ α)} {e : Entry σ α} (hr : Run init step h s)
    (hs : h = newer ++ e :: older) : Run init step older e.pre ∧ step e.pre e.act e.post := by
  induction hr generalizing newer with
  | start => simp at hs
  | snoc hr hst ih =>
    cases newer with
    | nil =>
      simp only [List.nil_append, List.cons.injEq] at hs
      obtain ⟨rfl, rfl⟩ := hs
      exact ⟨hr, hst⟩
    | cons x newer =>
      simp only [List.cons_append, List.cons.injEq] at hs
      exact ih hs.2

/-- What held after an entry holds still, or an entry since then has broken it. -/
theorem since {Q : σ → Prop} {newer older : List (Entry σ α)} {e : Entry σ α}
    (hr : Run init step h s) (hs : h = newer ++ e :: older) (he : Q e.post) :
    Q s ∨ ∃ x ∈ newer, Q x.pre ∧ ¬Q x.post := by
  induction hr generalizing newer with
  | start => simp at hs
  | @snoc h s s' a hr hst ih =>
    cases newer with
    | nil =>
      simp only [List.nil_append, List.cons.injEq] at hs
      obtain ⟨rfl, rfl⟩ := hs
      exact .inl he
    | cons x newer =>
      simp only [List.cons_append, List.cons.injEq] at hs
      obtain ⟨rfl, rfl⟩ := hs
      rcases ih rfl with hq | ⟨y, hy, hq⟩
      · by_cases hq' : Q s'
        · exact .inl hq'
        · exact .inr ⟨_, List.mem_cons_self, hq, hq'⟩
      · exact .inr ⟨y, List.mem_cons_of_mem _ hy, hq⟩

end Run

/-! ## The latest entry of a kind -/

/-- `e` is the latest entry of `h` with `p`, and `newer` are the entries after it. -/
structure Latest (p : ε → Prop) (h newer : List ε) (e : ε) : Prop where
  split : ∃ older, h = newer ++ e :: older
  holds : p e
  none : ∀ x ∈ newer, ¬p x

namespace Latest

variable {p : ε → Prop} {h newer : List ε} {e x : ε}

theorem here (hx : p x) : Latest p (x :: h) [] x :=
  ⟨⟨h, rfl⟩, hx, fun _ hm => absurd hm List.not_mem_nil⟩

theorem cons (hl : Latest p h newer e) (hx : ¬p x) : Latest p (x :: h) (x :: newer) e := by
  obtain ⟨older, rfl⟩ := hl.split
  refine ⟨⟨older, rfl⟩, hl.holds, fun y hy => ?_⟩
  rcases List.mem_cons.1 hy with rfl | hy
  · exact hx
  · exact hl.none y hy

/-- The cut is unique. -/
theorem unique {newer' : List ε} {e' : ε} (hl : Latest p h newer e) (hl' : Latest p h newer' e') :
    newer = newer' ∧ e = e' := by
  obtain ⟨⟨older, rfl⟩, he, hn⟩ := hl
  obtain ⟨⟨older', hs⟩, he', hn'⟩ := hl'
  induction newer generalizing newer' with
  | nil =>
    cases newer' with
    | nil => exact ⟨rfl, (List.cons.inj hs).1⟩
    | cons y newer' => exact absurd ((List.cons.inj hs).1 ▸ he) (hn' y List.mem_cons_self)
  | cons y newer ih =>
    cases newer' with
    | nil => exact absurd ((List.cons.inj hs).1 ▸ he') (hn y List.mem_cons_self)
    | cons z newer' =>
      obtain ⟨rfl, hs'⟩ := List.cons.inj hs
      obtain ⟨rfl, rfl⟩ := ih (fun x hx => hn x (List.mem_cons_of_mem _ hx))
        (fun x hx => hn' x (List.mem_cons_of_mem _ hx)) hs'
      exact ⟨rfl, rfl⟩

end Latest

end Lib
