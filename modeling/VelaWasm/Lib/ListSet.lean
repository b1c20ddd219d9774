/-
One entry of a list replaced, one appended, or the first with a given key found or removed.
-/
import Mathlib.Algebra.Ring.Int.Defs
import Mathlib.Data.List.Nodup
import Mathlib.Tactic.Common

namespace VelaWasm

variable {σ : Type*} {l : List σ} {i j : ℕ} {s t u : σ}

/-- An entry of the list afterwards is the new one or another one of before. -/
theorem getElem?_set_some (h : (l.set i t)[j]? = some u) : (j = i ∧ u = t) ∨ (j ≠ i ∧ l[j]? = some u) := by
  by_cases hj : i = j
  · subst hj
    rw [List.getElem?_set_self'] at h
    obtain ⟨-, -, rfl⟩ := Option.map_eq_some_iff.1 h
    exact .inl ⟨rfl, rfl⟩
  · rw [List.getElem?_set_ne hj] at h
    exact .inr ⟨Ne.symm hj, h⟩

theorem getElem?_set_of_some (hi : l[i]? = some s) : (l.set i t)[i]? = some t := by
  rw [List.getElem?_set_self', hi]
  rfl

/-- An entry of the list with one appended is one of before or the new one, where there was none. -/
theorem getElem?_concat_some (h : (l ++ [t])[j]? = some u) : l[j]? = some u ∨ (l[j]? = none ∧ u = t) := by
  rw [List.getElem?_append] at h
  split at h
  · exact .inl h
  · rename_i hlt
    exact .inr ⟨List.getElem?_eq_none (Nat.le_of_not_lt hlt), List.mem_singleton.1 (List.mem_of_getElem? h)⟩

theorem getElem?_concat_of_some (hi : l[i]? = some s) : (l ++ [t])[i]? = some s := by
  rw [List.getElem?_append_left (List.getElem?_eq_some_iff.1 hi).1, hi]

theorem sum_map_set {f : σ → ℤ} (h : l[i]? = some s) (t : σ) :
    ((l.set i t).map f).sum = (l.map f).sum - f s + f t := by
  induction l generalizing i with
  | nil => cases h
  | cons a l ih =>
    cases i with
    | zero =>
      cases h
      simp only [List.set_cons_zero, List.map_cons, List.sum_cons]
      omega
    | succ i =>
      have h' := ih (i := i) h
      simp only [List.set_cons_succ, List.map_cons, List.sum_cons, h']
      omega

/-! ## Keys -/

section

variable {K : Type*} [DecidableEq K] {key : σ → K} {k : K}

theorem of_find?_key (h : l.find? (fun t => key t = k) = some s) : s ∈ l ∧ key s = k :=
  ⟨List.mem_of_find?_eq_some h, by simpa using List.find?_some h⟩

/-- When the keys are distinct, an entry is the first one with its key. -/
theorem find?_key_of_mem (h : (l.map key).Nodup) (hs : s ∈ l) : l.find? (fun t => key t = key s) = some s := by
  cases hf : l.find? fun t => key t = key s with
  | none =>
    have hne := List.find?_eq_none.1 hf s hs
    simp at hne
  | some t =>
    obtain ⟨ht, hkey⟩ := of_find?_key hf
    rw [List.inj_on_of_nodup_map h ht hs hkey]

/-- When the keys are distinct, only one entry has the key that is removed. -/
theorem ne_of_mem_eraseP (h : (l.map key).Nodup) (hs : s ∈ l.eraseP fun t => key t = k) : key s ≠ k := by
  induction l with
  | nil => cases hs
  | cons t l ih =>
    obtain ⟨ht, hl⟩ := List.nodup_cons.1 h
    by_cases hk : key t = k
    · rw [List.eraseP_cons_of_pos (by simpa using hk)] at hs
      rintro rfl
      exact ht (hk ▸ List.mem_map_of_mem hs)
    · rw [List.eraseP_cons_of_neg (by simpa using hk)] at hs
      rcases List.mem_cons.1 hs with rfl | hs
      · exact hk
      · exact ih hl hs

end

end VelaWasm
