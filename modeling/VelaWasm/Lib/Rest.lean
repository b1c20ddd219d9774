/-
Runs that come to rest. When a measure in a well-founded order goes down with every step, no run goes on for ever.
When a measure in `ℕ` pays for the steps, it bounds what a run costs.
-/
import VelaWasm.Lib.Run
import Mathlib.Algebra.BigOperators.Group.List.Basic
import Mathlib.Algebra.Order.Ring.Nat
import Mathlib.Order.WellFounded
import Mathlib.Tactic.Common

namespace VelaWasm.Run

variable {σ α β : Type*} (step : σ → α → Option σ)

/-! ## Definitions -/

/-- No action can be taken. -/
def AtRest (s : σ) : Prop := ∀ a, step s a = none

/-- Some run from `s` goes on for ever. -/
def Endless (s : σ) : Prop := ∃ r : ℕ → σ, r 0 = s ∧ ∀ k, ∃ a, step (r k) a = some (r (k + 1))

/-! ## Rest -/

variable {step} {I : σ → Prop} [LT β] [WellFoundedLT β] {μ : σ → β}

theorem not_endless (hstep : ∀ s a t, I s → step s a = some t → I t)
    (hlt : ∀ s a t, I s → step s a = some t → μ t < μ s) {s : σ} (hI : I s) : ¬ Endless step s := by
  rintro ⟨r, rfl, hr⟩
  have hinv : ∀ k, I (r k) := by
    intro k
    induction k with
    | zero => exact hI
    | succ k ih =>
      obtain ⟨a, ha⟩ := hr k
      exact hstep _ a _ ih ha
  obtain ⟨k, hk⟩ := WellFounded.not_rel_apply_succ (r := (· < ·)) fun k => μ (r k)
  obtain ⟨a, ha⟩ := hr k
  exact hk (hlt _ a _ (hinv k) ha)

/-! ## Costs -/

/-- What a run costs is paid by the measure. -/
theorem cost_le {ν : σ → ℕ} {cost : α → ℕ} (hstep : ∀ s a t, I s → step s a = some t → I t)
    (hpay : ∀ s a t, I s → step s a = some t → cost a + ν t ≤ ν s) {s t : σ} {as : List α} (hI : I s)
    (h : exec step s as = some t) : (as.map cost).sum + ν t ≤ ν s := by
  induction as generalizing s with
  | nil =>
    cases h
    simp
  | cons a as ih =>
    obtain ⟨u, hu, h⟩ := exec_cons_some step h
    have hrest := ih (hstep s a u hI hu) h
    have hfirst := hpay s a u hI hu
    rw [List.map_cons, List.sum_cons]
    omega

end VelaWasm.Run
