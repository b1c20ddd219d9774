/-
Singly linked lists in memory: `Segment next p l q` when the nodes `l` are met one after the other on the way
from the pointer `p` to the pointer `q`. Which nodes a list has is determined by its head, so none is met
twice, and a link can be changed without touching the other ones.
-/
import Mathlib.Data.List.Nodup
import Mathlib.Logic.Function.Basic
import Mathlib.Tactic.Common

namespace VelaWasm.Chain

variable {A : Type*} (null : A) (next : A → A)

/-- From `p` the links lead through the nodes `l` to `q`. -/
def Segment : A → List A → A → Prop
  | p, [], q => p = q
  | p, a :: l, q => p = a ∧ a ≠ null ∧ Segment (next a) l q

/-- A list with head `p`, of which the last link is null. -/
def Linked (p : A) (l : List A) : Prop := Segment null next p l null

instance Segment.decidable [DecidableEq A] : ∀ p l q, Decidable (Segment null next p l q)
  | p, [], q => inferInstanceAs (Decidable (p = q))
  | _, a :: l, q =>
    have := Segment.decidable (next a) l q
    inferInstanceAs (Decidable (_ ∧ _ ∧ _))

instance [DecidableEq A] (p : A) (l : List A) : Decidable (Linked null next p l) := Segment.decidable null next p l null

variable {null next} {next' : A → A} {p q r a : A} {l l' : List A}

@[simp] theorem segment_nil : Segment null next p [] q ↔ p = q := Iff.rfl

@[simp] theorem segment_cons : Segment null next p (a :: l) q ↔ p = a ∧ a ≠ null ∧ Segment null next (next a) l q :=
  Iff.rfl

theorem segment_append : Segment null next p (l ++ l') q ↔ ∃ r, Segment null next p l r ∧ Segment null next r l' q := by
  induction l generalizing p with
  | nil => simp
  | cons a l ih =>
    rw [List.cons_append, segment_cons, ih]
    constructor
    · rintro ⟨rfl, ha, r, hl, hl'⟩
      exact ⟨r, ⟨rfl, ha, hl⟩, hl'⟩
    · rintro ⟨r, ⟨rfl, ha, hl⟩, hl'⟩
      exact ⟨rfl, ha, r, hl, hl'⟩

theorem Segment.congr (h : Segment null next p l q) (hn : ∀ a ∈ l, next' a = next a) : Segment null next' p l q := by
  induction l generalizing p with
  | nil => exact h
  | cons a l ih =>
    obtain ⟨rfl, ha, hl⟩ := h
    refine ⟨rfl, ha, ?_⟩
    rw [hn p List.mem_cons_self]
    exact ih hl fun b hb => hn b (List.mem_cons_of_mem _ hb)

theorem Segment.ne_null (h : Segment null next p l q) (ha : a ∈ l) : a ≠ null := by
  induction l generalizing p with
  | nil => cases ha
  | cons b l ih =>
    obtain ⟨rfl, hb, hl⟩ := h
    rcases List.mem_cons.1 ha with rfl | ha
    · exact hb
    · exact ih hl ha

/-! ## Lists -/

theorem linked_null_iff : Linked null next null l ↔ l = [] := by
  cases l with
  | nil => exact iff_of_true rfl rfl
  | cons a l =>
    refine iff_of_false ?_ (List.cons_ne_nil a l)
    rintro ⟨rfl, ha, -⟩
    exact ha rfl

theorem Linked.eq_nil_iff (h : Linked null next p l) : l = [] ↔ p = null := by
  constructor
  · rintro rfl
    exact h
  · rintro rfl
    exact linked_null_iff.1 h

/-- The head determines the nodes. -/
theorem Linked.unique (h : Linked null next p l) (h' : Linked null next p l') : l = l' := by
  induction l generalizing p l' with
  | nil =>
    rw [Linked, segment_nil] at h
    subst h
    exact (linked_null_iff.1 h').symm
  | cons a l ih =>
    obtain ⟨rfl, ha, hl⟩ := h
    cases l' with
    | nil => exact absurd h' ha
    | cons b l' =>
      obtain ⟨rfl, -, hl'⟩ := h'
      rw [ih hl hl']

/-- No node is met twice. -/
theorem Linked.nodup (h : Linked null next p l) : l.Nodup := by
  induction l generalizing p with
  | nil => exact List.nodup_nil
  | cons a l ih =>
    have hl : Linked null next (next a) l := h.2.2
    refine List.nodup_cons.2 ⟨fun ha => ?_, ih hl⟩
    -- the list that starts at the second occurrence is the whole list
    obtain ⟨l₁, l₂, rfl⟩ := List.mem_iff_append.1 ha
    obtain ⟨r, -, hr⟩ := segment_append.1 hl
    have hra : r = a := hr.1
    have hpa : p = a := h.1
    rw [hra] at hr
    rw [hpa] at h
    have hlen := congrArg List.length (Linked.unique h hr)
    simp only [List.length_cons, List.length_append] at hlen
    omega

theorem Linked.tail (h : Linked null next p (a :: l)) : Linked null next (next a) l := h.2.2

theorem Linked.notMem_tail (h : Linked null next p (a :: l)) : a ∉ l := (List.nodup_cons.1 h.nodup).1

/-- A node added at the head. -/
theorem Linked.push (h : Linked null next p l) (ha : a ≠ null) (hp : next' a = p)
    (hn : ∀ b ∈ l, next' b = next b) : Linked null next' a (a :: l) := by
  refine ⟨rfl, ha, ?_⟩
  rw [hp]
  exact h.congr hn

/-- The head taken off. -/
theorem Linked.pop (h : Linked null next p (a :: l)) (hn : ∀ b ∈ l, next' b = next b) :
    Linked null next' (next a) l := h.tail.congr hn

/-- A node behind another one taken out: its predecessor is linked to its successor. -/
theorem Linked.unlink {b : A} (h : Linked null next p (l ++ a :: b :: l')) (ha : next' a = next b)
    (hl : ∀ c ∈ l, next' c = next c) (hl' : ∀ c ∈ l', next' c = next c) : Linked null next' p (l ++ a :: l') := by
  obtain ⟨r, hleft, hra, hnull, -, -, hright⟩ := segment_append.1 h
  refine segment_append.2 ⟨r, hleft.congr hl, hra, hnull, ?_⟩
  rw [ha]
  exact hright.congr hl'

/-! ## The last node -/

theorem getLastD_cons_of_ne_nil (h : l ≠ []) (a b : A) : (a :: l).getLastD b = l.getLastD b := by
  rw [List.getLastD_cons, List.getLastD_eq_getLast?, List.getLastD_eq_getLast?, List.getLast?_eq_some_getLast h]
  rfl

/-- The list that starts at the last node. -/
theorem Linked.last (h : Linked null next p l) : Linked null next (l.getLastD null) (l.drop (l.length - 1)) := by
  induction l generalizing p with
  | nil => rfl
  | cons a l ih =>
    cases l with
    | nil =>
      obtain ⟨rfl, hp, hl⟩ := h
      exact ⟨rfl, hp, hl⟩
    | cons b l =>
      rw [getLastD_cons_of_ne_nil (List.cons_ne_nil b l)]
      exact ih h.tail

end VelaWasm.Chain
