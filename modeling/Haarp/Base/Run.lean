import Mathlib.Logic.Relation

/-!
# Runs

A system is a step relation; a run is a finite sequence of its steps. `run_invariant` is the rule by
which what each step preserves holds in every state reached.

`exclusive_step` is the rule for something that at most one of many parties holds, where each step is
a step of one party.
-/

namespace Haarp.Base

variable {σ : Type*} {step : σ → σ → Prop}

/-- `s'` is reached from `s`. -/
abbrev Run (step : σ → σ → Prop) (s s' : σ) : Prop := Relation.ReflTransGen step s s'

theorem run_invariant {P : σ → Prop} (hstep : ∀ s s', P s → step s s' → P s') {s s' : σ}
    (hrun : Run step s s') (hs : P s) : P s' := by
  induction hrun with
  | refl => exact hs
  | tail _ h ih => exact hstep _ _ ih h

/-- A list of acts that a system takes one after the other is a run. -/
theorem run_of_foldlM {α : Type*} {f : σ → α → Option σ}
    (hf : ∀ s a s', f s a = some s' → step s s') {acts : List α} {s s' : σ}
    (h : acts.foldlM f s = some s') : Run step s s' := by
  induction acts generalizing s with
  | nil =>
    cases h
    exact .refl
  | cons a acts ih =>
    rw [List.foldlM_cons] at h
    obtain ⟨s₁, hs₁, hrest⟩ := Option.bind_eq_some_iff.mp h
    exact .head (hf s a s₁ hs₁) (ih hrest)

/-- At most one party holds what only the party `c` may take, when nobody else holds it. -/
theorem exclusive_step {ι : Type*} {holds holds' : ι → Prop}
    (h : ∀ i j, holds i → holds j → i = j) {c : ι} (hother : ∀ i, i ≠ c → holds' i → holds i)
    (hc : holds' c → holds c ∨ ∀ i, i ≠ c → ¬ holds i) : ∀ i j, holds' i → holds' j → i = j := by
  have hone : ∀ i, i ≠ c → holds' i → holds' c → False := by
    intro i hi hi' hc'
    rcases hc hc' with hold | hnone
    · exact hi (h i c (hother i hi hi') hold)
    · exact hnone i hi (hother i hi hi')
  intro i j hi hj
  by_cases hic : i = c
  · by_cases hjc : j = c
    · rw [hic, hjc]
    · exact (hone j hjc hj (hic ▸ hi)).elim
  · by_cases hjc : j = c
    · exact (hone i hic hi (hjc ▸ hj)).elim
    · exact h i j (hother i hic hi) (hother j hjc hj)

end Haarp.Base
