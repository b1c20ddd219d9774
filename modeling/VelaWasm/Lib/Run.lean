/-
Runs of a transition system given by a partial step function: `step s a = none` when the action
`a` cannot be taken in `s`. `exec` is the state a run ends in, `Meets` a condition on every step
of a run in the state it is taken in, `Along` a property of every state a run passes through, and
the rules below carry an inductive invariant from the steps to the runs.
-/
import Mathlib.Tactic.Common

namespace VelaWasm.Run

variable {σ α : Type*} (step : σ → α → Option σ)

/-! ## Definitions -/

/-- The state a run of the actions `as` ends in. -/
def exec : σ → List α → Option σ
  | s, [] => some s
  | s, a :: as =>
    match step s a with
    | none => none
    | some t => exec t as

/-- Every action of the run meets `ok` in the state it is taken in. -/
def Meets (ok : σ → α → Prop) : σ → List α → Prop
  | _, [] => True
  | s, a :: as => ok s a ∧
    match step s a with
    | none => True
    | some t => Meets ok t as

/-- Every state the run passes through, the first and the last included, satisfies `P`. -/
def Along (P : σ → Prop) : σ → List α → Prop
  | s, [] => P s
  | s, a :: as => P s ∧
    match step s a with
    | none => True
    | some t => Along P t as

instance Meets.decidable {ok : σ → α → Prop} [∀ s a, Decidable (ok s a)] :
    ∀ s as, Decidable (Meets step ok s as)
  | _, [] => isTrue trivial
  | s, a :: as =>
    have : Decidable (match step s a with
        | none => True
        | some t => Meets step ok t as) :=
      match step s a with
      | none => isTrue trivial
      | some t => Meets.decidable t as
    inferInstanceAs (Decidable (_ ∧ _))

/-! ## Unfolding -/

theorem exec_cons (s : σ) (a : α) (as : List α) :
    exec step s (a :: as) = (step s a).bind fun t => exec step t as := by
  rw [exec]
  cases step s a <;> rfl

theorem exec_cons_some {s u : σ} {a : α} {as : List α} (h : exec step s (a :: as) = some u) :
    ∃ t, step s a = some t ∧ exec step t as = some u := by
  rw [exec_cons] at h
  exact Option.bind_eq_some_iff.1 h

theorem exec_append (s : σ) (as bs : List α) :
    exec step s (as ++ bs) = (exec step s as).bind fun t => exec step t bs := by
  induction as generalizing s with
  | nil => rfl
  | cons a as ih =>
    rw [List.cons_append, exec_cons, exec_cons]
    cases step s a with
    | none => rfl
    | some t => exact ih t

theorem meets_cons {ok : σ → α → Prop} {s t : σ} {a : α} {as : List α} (h : step s a = some t) :
    Meets step ok s (a :: as) ↔ ok s a ∧ Meets step ok t as := by
  rw [Meets, h]

theorem along_cons {P : σ → Prop} {s t : σ} {a : α} {as : List α} (h : step s a = some t) :
    Along step P s (a :: as) ↔ P s ∧ Along step P t as := by
  rw [Along, h]

theorem Along.head {P : σ → Prop} {s : σ} : ∀ {as : List α}, Along step P s as → P s
  | [], h => h
  | _ :: _, h => h.1

/-! ## Invariants -/

variable {step} {ok : σ → α → Prop} {I : σ → Prop}

/-- An invariant of the steps that meet `ok` holds at the end of every run that meets `ok`. -/
theorem exec_invariant (hstep : ∀ s a t, I s → ok s a → step s a = some t → I t) {s t : σ} {as : List α}
    (hI : I s) (hm : Meets step ok s as) (h : exec step s as = some t) : I t := by
  induction as generalizing s with
  | nil => cases h; exact hI
  | cons a as ih =>
    obtain ⟨u, hu, h⟩ := exec_cons_some step h
    rw [meets_cons step hu] at hm
    exact ih (hstep s a u hI hm.1 hu) hm.2 h

/-- Two conditions that agree under an invariant of the steps that meet the first. -/
theorem meets_iff {ok' : σ → α → Prop} (hok : ∀ s a, I s → (ok s a ↔ ok' s a))
    (hstep : ∀ s a t, I s → ok s a → step s a = some t → I t) {s : σ} (hI : I s) (as : List α) :
    Meets step ok s as ↔ Meets step ok' s as := by
  induction as generalizing s with
  | nil => exact Iff.rfl
  | cons a as ih =>
    rw [Meets, Meets, ← hok s a hI]
    refine and_congr_right fun ha => ?_
    cases hs : step s a with
    | none => exact Iff.rfl
    | some t => exact ih (hstep s a t hI ha hs)

theorem meets_true (s : σ) (as : List α) : Meets step (fun _ _ => True) s as := by
  induction as generalizing s with
  | nil => trivial
  | cons a as ih =>
    refine ⟨trivial, ?_⟩
    cases step s a with
    | none => trivial
    | some t => exact ih t

/-- An invariant of all steps holds at the end of every run. -/
theorem exec_preserves (hstep : ∀ s a t, I s → step s a = some t → I t) {s t : σ} {as : List α} (hI : I s)
    (h : exec step s as = some t) : I t :=
  exec_invariant (fun s a t hs _ ht => hstep s a t hs ht) hI (meets_true s as) h

/-- When `ok` preserves an invariant that implies `P`, and a step that does not meet `ok` leads out
of `P` at once, a run stays in `P` exactly when each of its steps meets `ok`. -/
theorem along_iff_meets {P : σ → Prop} (hP : ∀ s, I s → P s)
    (hstep : ∀ s a t, I s → ok s a → step s a = some t → I t)
    (hbad : ∀ s a t, I s → ¬ ok s a → step s a = some t → ¬ P t) {s t : σ} {as : List α}
    (hI : I s) (h : exec step s as = some t) : Along step P s as ↔ Meets step ok s as := by
  induction as generalizing s with
  | nil => exact ⟨fun _ => trivial, fun _ => hP s hI⟩
  | cons a as ih =>
    obtain ⟨u, hu, h⟩ := exec_cons_some step h
    rw [along_cons step hu, meets_cons step hu]
    constructor
    · rintro ⟨-, ha⟩
      have hok : ok s a := by
        by_contra hn
        exact hbad s a u hI hn hu ha.head
      exact ⟨hok, (ih (hstep s a u hI hok hu) h).1 ha⟩
    · rintro ⟨hok, hm⟩
      exact ⟨hP s hI, (ih (hstep s a u hI hok hu) h).2 hm⟩

/-- The same where a step that does not meet `ok` leaves `P` only later: it leads into `D`, which no
step leaves without leaving `P`, and from which some step does leave `P`. A run and its next step then
stay in `P` exactly when each step of the run meets `ok`. -/
theorem along_next_iff_meets {P D : σ → Prop} (hP : ∀ s, I s → P s)
    (hstep : ∀ s a t, I s → ok s a → step s a = some t → I t)
    (hnext : ∀ s a t, I s → step s a = some t → P t)
    (hbad : ∀ s a t, I s → ¬ ok s a → step s a = some t → D t)
    (hkeep : ∀ s a t, D s → step s a = some t → P t → D t)
    (hlate : ∀ s, D s → ∃ a t, step s a = some t ∧ ¬ P t) {s t : σ} {as : List α}
    (hI : I s) (h : exec step s as = some t) :
    (∀ b, Along step P s (as ++ [b])) ↔ Meets step ok s as := by
  -- a run from `D` and its next step do not stay in `P`
  have doomed : ∀ (as : List α) (s t : σ), D s → exec step s as = some t →
      ¬ ∀ b, Along step P s (as ++ [b]) := by
    intro as
    induction as with
    | nil =>
      intro s t hD _ ha
      obtain ⟨b, u, hu, hn⟩ := hlate s hD
      exact hn ((along_cons step hu).1 (ha b)).2
    | cons a as ih =>
      intro s t hD h ha
      obtain ⟨u, hu, h⟩ := exec_cons_some step h
      have hrest : ∀ b, Along step P u (as ++ [b]) := fun b => ((along_cons step hu).1 (ha b)).2
      obtain ⟨b, -⟩ := hlate s hD
      exact ih u t (hkeep s a u hD hu (hrest b).head) h hrest
  induction as generalizing s with
  | nil =>
    refine ⟨fun _ => trivial, fun _ b => ⟨hP s hI, ?_⟩⟩
    cases hb : step s b with
    | none => exact trivial
    | some u => exact hnext s b u hI hb
  | cons a as ih =>
    obtain ⟨u, hu, h⟩ := exec_cons_some step h
    rw [meets_cons step hu]
    constructor
    · intro ha
      have hrest : ∀ b, Along step P u (as ++ [b]) := fun b => ((along_cons step hu).1 (ha b)).2
      have hok : ok s a := by
        by_contra hn
        exact doomed as u t (hbad s a u hI hn hu) h hrest
      exact ⟨hok, (ih (hstep s a u hI hok hu) h).1 hrest⟩
    · rintro ⟨hok, hm⟩ b
      exact (along_cons step hu).2 ⟨hP s hI, (ih (hstep s a u hI hok hu) h).2 hm b⟩

end VelaWasm.Run
