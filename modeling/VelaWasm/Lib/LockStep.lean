/-
Two machines that take the same actions, each with an answer to every action: the one of an implementation and the
one of its specification. A run is in step when every answer of the first is what the answer of the second looks like
and the states it passes through are related. Where one action keeps them in step exactly under a condition on the
specification, a run is in step exactly when each of its actions meets the condition.
-/
import Mathlib.Tactic.Common

namespace VelaWasm.LockStep

variable {S N A O P : Type*} (stepS : S → A → S × O) (stepN : N → A → N × P) (rel : S → N → Prop)
  (ans : O → P → Prop)

/-- One action is answered alike and leaves related states. -/
def StepMatches (s : S) (n : N) (a : A) : Prop :=
  ans (stepS s a).2 (stepN n a).2 ∧ rel (stepS s a).1 (stepN n a).1

/-- Every action of the run is answered alike, and the states before and after it are related. -/
def RunMatches : S → N → List A → Prop
  | s, n, [] => rel s n
  | s, n, a :: as =>
    rel s n ∧ ans (stepS s a).2 (stepN n a).2 ∧ RunMatches (stepS s a).1 (stepN n a).1 as

/-- Every action meets the condition in the state of the specification that it is taken in. -/
def Permits (ok : N → A → Prop) : N → List A → Prop
  | _, [] => True
  | n, a :: as => ok n a ∧ Permits ok (stepN n a).1 as

instance Permits.decidable {ok : N → A → Prop} [∀ n a, Decidable (ok n a)] :
    ∀ n as, Decidable (Permits stepN ok n as)
  | _, [] => isTrue trivial
  | n, a :: as =>
    have : Decidable (Permits stepN ok (stepN n a).1 as) := Permits.decidable _ as
    inferInstanceAs (Decidable (_ ∧ _))

variable {stepS stepN rel ans} {ok : N → A → Prop} {s : S} {n : N}

theorem RunMatches.related {as : List A} (h : RunMatches stepS stepN rel ans s n as) : rel s n := by
  cases as with
  | nil => exact h
  | cons a as => exact h.1

/-- What one action keeps under a condition, a run keeps as long as its actions meet the condition. -/
theorem runMatches_of_permits (hstep : ∀ s n a, rel s n → ok n a → StepMatches stepS stepN rel ans s n a)
    (h : rel s n) {as : List A} (hok : Permits stepN ok n as) : RunMatches stepS stepN rel ans s n as := by
  induction as generalizing s n with
  | nil => exact h
  | cons a as ih =>
    obtain ⟨hanswer, hnext⟩ := hstep s n a h hok.1
    exact ⟨h, hanswer, ih hnext hok.2⟩

/-- The rule for an exact condition. -/
theorem runMatches_iff (hstep : ∀ s n a, rel s n → (StepMatches stepS stepN rel ans s n a ↔ ok n a))
    (h : rel s n) (as : List A) : RunMatches stepS stepN rel ans s n as ↔ Permits stepN ok n as := by
  constructor
  · intro hin
    induction as generalizing s n with
    | nil => trivial
    | cons a as ih =>
      obtain ⟨-, hanswer, hrest⟩ := hin
      exact ⟨(hstep s n a h).1 ⟨hanswer, hrest.related⟩, ih hrest.related hrest⟩
  · exact fun hok => runMatches_of_permits (fun s n a hr hok => (hstep s n a hr).2 hok) h hok

end VelaWasm.LockStep
