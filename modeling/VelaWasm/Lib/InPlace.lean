/-
Values changed in place: a function applied at each of a list of addresses, one after the other. How often
an address is listed is all that counts, so a second list undoes the first when it is a permutation of it
and its function the inverse. Where each address of the list comes with a function of its own, what a value
becomes is the composition of the functions listed with its address.
-/
import Mathlib.Data.List.Perm.Basic
import Mathlib.Data.List.Count
import Mathlib.Logic.Function.Iterate
import Mathlib.Tactic.Common

namespace VelaWasm.InPlace

variable {A V : Type*} [DecidableEq A]

/-- `f` applied at each address of the list. -/
def applyAll (f : V → V) : List A → (A → V) → A → V
  | [], m => m
  | p :: ps, m => applyAll f ps (Function.update m p (f (m p)))

variable {f g : V → V} {m : A → V}

@[simp] theorem applyAll_nil : applyAll f [] m = m := rfl

@[simp] theorem applyAll_cons (p : A) (ps : List A) :
    applyAll f (p :: ps) m = applyAll f ps (Function.update m p (f (m p))) := rfl

theorem applyAll_append (ps qs : List A) : applyAll f (ps ++ qs) m = applyAll f qs (applyAll f ps m) := by
  induction ps generalizing m with
  | nil => rfl
  | cons p ps ih => exact ih

theorem applyAll_apply (ps : List A) (q : A) : applyAll f ps m q = f^[ps.count q] (m q) := by
  induction ps generalizing m with
  | nil => rfl
  | cons p ps ih =>
    rw [applyAll_cons, ih]
    by_cases h : p = q
    · subst h
      rw [Function.update_self, List.count_cons_self, Function.iterate_succ_apply]
    · rw [Function.update_of_ne (Ne.symm h), List.count_cons_of_ne h]

theorem applyAll_of_notMem {ps : List A} {q : A} (h : q ∉ ps) : applyAll f ps m q = m q := by
  rw [applyAll_apply, List.count_eq_zero_of_not_mem h]
  rfl

/-- Undoing, in any order. -/
theorem applyAll_undo (hg : Function.LeftInverse g f) {ps qs : List A} (h : ps.Perm qs) :
    applyAll g qs (applyAll f ps m) = m := by
  funext q
  rw [applyAll_apply, applyAll_apply, h.count_eq]
  exact hg.iterate _ (m q)

/-- A list without repetitions. -/
theorem applyAll_of_nodup {ps : List A} (h : ps.Nodup) (q : A) :
    applyAll f ps m q = if q ∈ ps then f (m q) else m q := by
  rw [applyAll_apply, h.count]
  split_ifs <;> rfl

/-! ## A function for each address -/

/-- Each function applied at its address. -/
def applyEach : List (A × (V → V)) → (A → V) → A → V
  | [], m => m
  | (p, f) :: l, m => applyEach l (Function.update m p (f (m p)))

/-- What a list makes of the value at `q`. -/
def effectAt (q : A) : List (A × (V → V)) → V → V
  | [], v => v
  | (p, f) :: l, v => effectAt q l (if p = q then f v else v)

theorem applyEach_apply (l : List (A × (V → V))) (q : A) : applyEach l m q = effectAt q l (m q) := by
  induction l generalizing m with
  | nil => rfl
  | cons e l ih =>
    rw [applyEach, ih, effectAt]
    by_cases h : e.1 = q
    · subst h
      rw [Function.update_self, if_pos rfl]
    · rw [Function.update_of_ne (Ne.symm h), if_neg h]

theorem effectAt_of_notMem {l : List (A × (V → V))} {q : A} (h : q ∉ l.map Prod.fst) (v : V) : effectAt q l v = v := by
  induction l generalizing v with
  | nil => rfl
  | cons e l ih =>
    rw [List.map_cons, List.mem_cons, not_or] at h
    rw [effectAt, if_neg (Ne.symm h.1)]
    exact ih h.2 v

end VelaWasm.InPlace
