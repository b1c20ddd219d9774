/-
Resources held by the agents of a system: `own` reads the resource off an agent's state, and the live
resources are those created and not yet destroyed. `Held` says that what an agent holds is live and held
by no other agent; creating a resource that is not live and destroying one's own keep it.
-/
import Mathlib.Data.Finset.Basic
import VelaWasm.Lib.ListSet

namespace VelaWasm

variable {σ A : Type*} (own : σ → Option A)

/-- Some agent holds the resource `a`. -/
def Owned (agents : List σ) (a : A) : Prop :=
  ∃ (i : ℕ) (s : σ), agents[i]? = some s ∧ own s = some a

structure Held (agents : List σ) (live : Finset A) : Prop where
  live : ∀ a, Owned own agents a → a ∈ live
  unique : ∀ (i j : ℕ) (s t : σ) (a : A), agents[i]? = some s → agents[j]? = some t →
    own s = some a → own t = some a → i = j

variable {own} {agents : List σ} {live : Finset A} {i : ℕ} {s t : σ} {a b : A}

/-! ## One agent changes -/

/-- An agent that keeps its resource. -/
theorem owned_set_iff (hi : agents[i]? = some s) (ht : own t = own s) :
    Owned own (agents.set i t) a ↔ Owned own agents a := by
  constructor
  · rintro ⟨j, u, hj, ha⟩
    rcases getElem?_set_some hj with ⟨rfl, rfl⟩ | ⟨-, hj⟩
    · exact ⟨j, s, hi, ht ▸ ha⟩
    · exact ⟨j, u, hj, ha⟩
  · rintro ⟨j, u, hj, ha⟩
    by_cases hji : j = i
    · subst hji
      rw [hi] at hj
      cases hj
      exact ⟨j, t, getElem?_set_of_some hi, ht.trans ha⟩
    · exact ⟨j, u, by rw [List.getElem?_set_ne (Ne.symm hji), hj], ha⟩

/-- An agent without a resource gets one. -/
theorem owned_set_acquire_iff (hi : agents[i]? = some s) (hs : own s = none) (ht : own t = some b) :
    Owned own (agents.set i t) a ↔ a = b ∨ Owned own agents a := by
  constructor
  · rintro ⟨j, u, hj, ha⟩
    rcases getElem?_set_some hj with ⟨rfl, rfl⟩ | ⟨-, hj⟩
    · exact .inl (Option.some.inj (ha.symm.trans ht))
    · exact .inr ⟨j, u, hj, ha⟩
  · rintro (rfl | ⟨j, u, hj, ha⟩)
    · exact ⟨i, t, getElem?_set_of_some hi, ht⟩
    · have hji : i ≠ j := by
        rintro rfl
        rw [hi] at hj
        cases hj
        rw [hs] at ha
        cases ha
      exact ⟨j, u, by rw [List.getElem?_set_ne hji, hj], ha⟩

/-- A new agent without a resource. -/
theorem owned_append_iff (ht : own t = none) : Owned own (agents ++ [t]) a ↔ Owned own agents a := by
  constructor
  · rintro ⟨j, u, hj, ha⟩
    rcases getElem?_concat_some hj with hj | ⟨-, rfl⟩
    · exact ⟨j, u, hj, ha⟩
    · rw [ht] at ha
      cases ha
  · rintro ⟨j, u, hj, ha⟩
    exact ⟨j, u, getElem?_concat_of_some hj, ha⟩

namespace Held

theorem nil : Held own ([] : List σ) live :=
  ⟨fun _ ⟨_, _, h, _⟩ => (by cases h), fun _ _ _ _ _ h => (by cases h)⟩

theorem append (h : Held own agents live) (ht : own t = none) : Held own (agents ++ [t]) live := by
  have hold : ∀ {j : ℕ} {u : σ} {a : A}, (agents ++ [t])[j]? = some u → own u = some a → agents[j]? = some u := by
    intro j u a hj ha
    rcases getElem?_concat_some hj with hj | ⟨-, rfl⟩
    · exact hj
    · rw [ht] at ha
      cases ha
  refine ⟨fun a ha => h.live a ((owned_append_iff ht).1 ha), fun i j u v a hi hj hu hv => ?_⟩
  exact h.unique i j u v a (hold hi hu) (hold hj hv) hu hv

theorem set (h : Held own agents live) (hi : agents[i]? = some s) (ht : own t = own s) :
    Held own (agents.set i t) live := by
  have hold : ∀ {j : ℕ} {u : σ} {a : A}, (agents.set i t)[j]? = some u → own u = some a →
      ∃ v, agents[j]? = some v ∧ own v = some a := by
    intro j u a hj ha
    rcases getElem?_set_some hj with ⟨rfl, rfl⟩ | ⟨-, hj⟩
    · exact ⟨s, hi, ht ▸ ha⟩
    · exact ⟨u, hj, ha⟩
  refine ⟨fun a ha => h.live a ((owned_set_iff hi ht).1 ha), fun j k u v a hj hk hu hv => ?_⟩
  obtain ⟨u', hj', hu'⟩ := hold hj hu
  obtain ⟨v', hk', hv'⟩ := hold hk hv
  exact h.unique j k u' v' a hj' hk' hu' hv'

variable [DecidableEq A]

theorem acquire (h : Held own agents live) (hi : agents[i]? = some s) (hs : own s = none) (ht : own t = some b)
    (hb : b ∉ live) : Held own (agents.set i t) (insert b live) := by
  -- another agent's resource is live, so it is not the new one
  have hne : ∀ {j : ℕ} {u : σ}, agents[j]? = some u → own u ≠ some b := fun hj hu => hb (h.live b ⟨_, _, hj, hu⟩)
  refine ⟨fun a ha => ?_, fun j k u v a hj hk hu hv => ?_⟩
  · rcases (owned_set_acquire_iff hi hs ht).1 ha with rfl | ha
    · exact Finset.mem_insert_self _ _
    · exact Finset.mem_insert_of_mem (h.live a ha)
  · rcases getElem?_set_some hj with ⟨hji, rfl⟩ | ⟨-, hj'⟩ <;>
      rcases getElem?_set_some hk with ⟨hki, rfl⟩ | ⟨-, hk'⟩
    · exact hji.trans hki.symm
    · exact absurd (hv.trans (hu.symm.trans ht)) (hne hk')
    · exact absurd (hu.trans (hv.symm.trans ht)) (hne hj')
    · exact h.unique j k u v a hj' hk' hu hv

theorem release (h : Held own agents live) (hi : agents[i]? = some s) (hs : own s = some b)
    (ht : own t = none) : Held own (agents.set i t) (live.erase b) := by
  have hold : ∀ {j : ℕ} {u : σ} {a : A}, (agents.set i t)[j]? = some u → own u = some a →
      j ≠ i ∧ agents[j]? = some u := by
    intro j u a hj ha
    rcases getElem?_set_some hj with ⟨rfl, rfl⟩ | hj
    · rw [ht] at ha
      cases ha
    · exact hj
  refine ⟨?_, fun j k u v a hj hk hu hv => ?_⟩
  · rintro a ⟨j, u, hj, ha⟩
    obtain ⟨hji, hj⟩ := hold hj ha
    refine Finset.mem_erase.2 ⟨?_, h.live a ⟨j, u, hj, ha⟩⟩
    rintro rfl
    exact hji (h.unique j i u s a hj hi ha hs)
  · exact h.unique j k u v a (hold hj hu).2 (hold hk hv).2 hu hv

omit [DecidableEq A] in
theorem mono {live' : Finset A} (h : Held own agents live) (hl : live ⊆ live') : Held own agents live' :=
  ⟨fun a ha => hl (h.live a ha), h.unique⟩

/-- An agent gives up what it holds, which stays live. -/
theorem drop (h : Held own agents live) (hi : agents[i]? = some s) (ht : own t = none) :
    Held own (agents.set i t) live := by
  cases hs : own s with
  | none => exact h.set hi (ht.trans hs.symm)
  | some b => exact (h.release hi hs ht).mono (Finset.erase_subset b live)

end Held

end VelaWasm
