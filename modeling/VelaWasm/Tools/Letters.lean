/-
The letters of `generate_table` for the types of parameters and results. Both are found by substring tests in a
fixed order, the two orders and the substrings differ, and a test for a number comes before the one for a pointer. For
which types a pointer is registered as one, and a scalar alike in both places.
-/
import Mathlib.Data.List.Infix
import VelaWasm.Tools.MkWamrGlue

namespace VelaWasm.Tools

/-! ## Types -/

/-- `sub in t` -/
def Has (sub : String) (t : Text) : Prop := contains sub.toList t = true

instance (sub : String) : DecidablePred (Has sub) := fun t => inferInstanceAs (Decidable (contains sub.toList t = true))

/-- A pointer to an object: a pointer that is no declarator of a pointer to a function. -/
structure ObjectPointer (t : Text) : Prop where
  star : Has "*" t
  declarator : ¬ Has "(*)" t

/-- A type with a value that is no pointer. -/
structure Scalar (t : Text) : Prop where
  value : noreturn t = false
  signature : ∀ sig ∈ pointerSignature, contains sig t = false
  vaList : ¬ Has "va_list" t

/-- An object pointer has a letter for which WAMR translates it, and a scalar the same letter as a parameter and as a
result. -/
structure SoundlyClassified (t : Text) : Prop where
  pointer : ObjectPointer t → letter t = '*' ∨ letter t = '$'
  scalar : Scalar t → retval t = some (letter t)

/-! ## The conditions -/

/-- No test in front of those for pointers finds the type that is pointed to. -/
def PointeeUntested (t : Text) : Prop :=
  ¬ Has "float" t ∧ ¬ Has "double" t ∧ ¬ Has "long long" t ∧
    (Has "char *" t ∨ ¬ Has "off_t" t ∧ ¬ Has "uintptr_t" t)

/-- The tests of both chains agree: at most one of the floating-point types, and neither with the name of a 64-bit type;
a `time_t`, which only results are tested for, is an `off_t` or a `long long` besides. -/
def ChainsAgree (t : Text) : Prop :=
  ¬ (Has "float" t ∧ Has "double" t) ∧
    (Has "off_t" t ∨ Has "time_t" t → ¬ Has "float" t ∧ ¬ Has "double" t ∧ (Has "long long" t ∨ Has "off_t" t))

/-! ## Substrings -/

theorem contains_iff {sub t : Text} : contains sub t = true ↔ sub <:+: t := by
  unfold contains
  rw [List.any_eq_true, List.infix_iff_prefix_suffix]
  refine exists_congr fun s => ?_
  rw [List.mem_tails, List.isPrefixOf_iff_prefix]
  exact and_comm

theorem contains_trans {sub sub' t : Text} (h : contains sub sub' = true) (h' : contains sub' t = true) :
    contains sub t = true :=
  contains_iff.2 ((contains_iff.1 h).trans (contains_iff.1 h'))

variable {t : Text}

theorem Has.of_has {sub sub' : String} (h : Has sub' t) (hs : contains sub.toList sub'.toList = true) : Has sub t :=
  contains_trans hs h

/-! ## Letters -/

theorem letter_pointer_iff (h : ObjectPointer t) : (letter t = '*' ∨ letter t = '$') ↔ PointeeUntested t := by
  obtain ⟨hstar, hdecl⟩ := h
  have hdefault : defaultLetter t = '*' := by
    have hsig : (pointerSignature.any fun sig => contains sig t) = true :=
      List.any_eq_true.2 ⟨"*".toList, by decide, hstar⟩
    rw [defaultLetter, if_pos hsig]
  unfold Has at hdecl
  unfold letter typeLetter PointeeUntested Has
  rw [if_neg hdecl, hdefault]
  -- the rest of the chain is a function of the remaining tests
  generalize contains "float".toList t = float
  generalize contains "double".toList t = double
  generalize contains "long long".toList t = long
  generalize contains "char *".toList t = char
  generalize contains "off_t".toList t = off
  generalize contains "uintptr_t".toList t = uintptr
  split_ifs <;> simp_all

theorem retval_scalar_iff (h : Scalar t) : retval t = some (letter t) ↔ ChainsAgree t := by
  obtain ⟨hvalue, hsig, hva⟩ := h
  have hstar : ¬ Has "*" t := by
    rw [Has, Bool.not_eq_true]
    exact hsig _ (by decide)
  have hdecl : ¬ Has "(*)" t := fun hh => hstar (hh.of_has (by decide))
  have hchar : ¬ Has "char *" t := fun hh => hstar (hh.of_has (by decide))
  have hdefault : defaultLetter t = 'i' := by
    have hnone : (pointerSignature.any fun sig => contains sig t) = false :=
      List.any_eq_false.2 fun sig hmem => by rw [hsig sig hmem]; decide
    rw [defaultLetter, hnone]
    rfl
  unfold Has at hstar hdecl hchar
  have hva' : ¬ contains vaList t = true := hva
  unfold retval letter typeLetter ChainsAgree Has
  -- both chains are functions of six tests
  rw [hvalue, hdefault, if_neg hdecl, if_neg hstar, if_neg hchar, if_neg hva']
  generalize contains "float".toList t = float
  generalize contains "double".toList t = double
  generalize contains "long long".toList t = long
  generalize contains "off_t".toList t = off
  generalize contains "uintptr_t".toList t = uintptr
  generalize contains "time_t".toList t = time
  revert float double long off uintptr time
  decide

/-- A type is classified soundly exactly when, if it is an object pointer, no test finds the type that is pointed to,
and, if it is a scalar, the two chains agree on it. -/
theorem soundlyClassified_iff (t : Text) :
    SoundlyClassified t ↔ (ObjectPointer t → PointeeUntested t) ∧ (Scalar t → ChainsAgree t) := by
  constructor
  · rintro ⟨hp, hs⟩
    exact ⟨fun h => (letter_pointer_iff h).1 (hp h), fun h => (retval_scalar_iff h).1 (hs h)⟩
  · rintro ⟨hp, hs⟩
    exact ⟨fun h => (letter_pointer_iff h).2 (hp h), fun h => (retval_scalar_iff h).2 (hs h)⟩

/-- A pointer to a `double` is registered as one, and a `time_t` is a word as a parameter and 64 bits as a result. -/
theorem double_pointer_time_not_sound :
    ¬ SoundlyClassified "double *".toList ∧ ¬ SoundlyClassified "time_t".toList := by
  constructor
  · rintro ⟨hp, -⟩
    exact absurd (hp ⟨by decide, by decide⟩) (by decide)
  · rintro ⟨-, hs⟩
    exact absurd (hs ⟨by decide, by decide, by decide⟩) (by decide)

end VelaWasm.Tools
