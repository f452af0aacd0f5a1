import SafeNudge.Lib.History

/-!
# Two systems with the same labels

A concrete system implements an abstract one through a view of its states. `Run.abstract`: when
every concrete step is a step of the view, every concrete run is an abstract run with the same
labels. `Run.implement`: when every abstract step can be followed, every abstract run is the view
of a concrete one. Both carry an invariant of the concrete states along, which may use that the view
is reached.
-/

namespace Lib

variable {σ τ α : Type}

/-- The same step, seen through a view of the states. -/
def Entry.map (view : σ → τ) (e : Entry σ α) : Entry τ α := ⟨view e.pre, e.act, view e.post⟩

namespace Run

variable {init : σ → Prop} {step : σ → α → σ → Prop} {init' : τ → Prop} {step' : τ → α → τ → Prop}
  {view : σ → τ} {I : σ → Prop}

theorem abstract (h0 : ∀ c, init c → init' (view c) ∧ I c)
    (hs : ∀ h c a c', Run init' step' h (view c) → I c → step c a c' →
      step' (view c) a (view c') ∧ I c')
    {h : List (Entry σ α)} {c : σ} (hr : Run init step h c) :
    Run init' step' (h.map (Entry.map view)) (view c) ∧ I c := by
  induction hr with
  | start hi => exact ⟨.start (h0 _ hi).1, (h0 _ hi).2⟩
  | snoc _ hst ih =>
    obtain ⟨hst', hI⟩ := hs _ _ _ _ ih.1 ih.2 hst
    exact ⟨.snoc ih.1 hst', hI⟩

theorem implement (h0 : ∀ s, init' s → ∃ c, init c ∧ view c = s ∧ I c)
    (hs : ∀ h c a s', Run init' step' h (view c) → I c → step' (view c) a s' →
      ∃ c', step c a c' ∧ view c' = s' ∧ I c')
    {h : List (Entry τ α)} {s : τ} (hr : Run init' step' h s) :
    ∃ h' c, Run init step h' c ∧ h'.map (Entry.map view) = h ∧ view c = s ∧ I c := by
  induction hr with
  | start hi =>
    obtain ⟨c, hc, rfl, hI⟩ := h0 _ hi
    exact ⟨[], c, .start hc, rfl, rfl, hI⟩
  | snoc hr hst ih =>
    obtain ⟨h', c, hrun, rfl, rfl, hI⟩ := ih
    obtain ⟨c', hst', rfl, hI'⟩ := hs _ _ _ _ hr hI hst
    exact ⟨_, c', .snoc hrun hst', rfl, rfl, hI'⟩

end Run

end Lib
