/-
The number of parameters that the prototype of a row declares, and the number of letters in the parentheses
of its signature. `generate_functions` passes over the type `void`, `generate_table` has a letter for it, and
each of the two stops by a test of its own.
-/
import VelaWasm.Tools.Agreement

namespace VelaWasm.Tools

/-! ## The property -/

/-- As many parameters after `env` as letters between the parentheses. -/
def SameArity (row : Row) : Prop := row.declared.length = (signature row.parms).length

/-- The columns that the prototype goes through. -/
def prototypeColumns (row : Row) : List (Text × Nat) :=
  upTo (endsPrototype (findex row)) (row.parms.zipIdx parm1Index)

/-- A column that the prototype passes over. -/
def skipped (findex : Nat) (col : Text × Nat) : Bool := decide (findex ≠ col.2) && col.1 == void

/-- The prototype goes on for as long as the signature, and passes over as many columns as it has behind
the end of the signature. -/
structure Balanced (row : Row) : Prop where
  reaches : (upTo endsSignature row.parms).length ≤ (prototypeColumns row).length
  skips : (prototypeColumns row).countP (skipped (findex row)) =
    ((prototypeColumns row).drop (upTo endsSignature row.parms).length).length

/-- The fields of a row in use: `...` is a field by itself and not the format, and nothing follows the
`va_list` of a formatting function. -/
structure Regular (row : Row) : Prop where
  alone : ∀ arg ∈ row.parms, contains dots arg = true → arg = dots
  format : ∀ col ∈ row.parms.zipIdx parm1Index, col.2 = findex row → col.1 ≠ dots
  last : findex row ≠ 0 → ∀ args args', row.parms = args ++ vaList :: args' → args' = []

/-! ## Counting -/

variable {row : Row}

theorem declared_length : row.declared.length + (prototypeColumns row).countP (skipped (findex row)) =
    (prototypeColumns row).length := by
  have hlen : row.declared.length = (parameterColumns (findex row) (row.parms.zipIdx parm1Index)).length :=
    declareParms_length _ _ _
  have hneg : (fun col : Text × Nat => decide (findex row = col.2) || !(col.1 == void)) =
      fun col => !skipped (findex row) col := by
    funext col
    simp [skipped]
  have hcount := List.length_eq_countP_add_countP (skipped (findex row)) (l := prototypeColumns row)
  simp only [Bool.not_eq_true, Bool.decide_eq_false] at hcount
  rw [hlen, parameterColumns, hneg, ← List.countP_eq_length_filter, Nat.add_comm]
  exact hcount.symm

theorem signature_length : (signature row.parms).length = (upTo endsSignature row.parms).length := by
  rw [signature_eq, List.length_map]

/-- The numbers are the same exactly when the row is balanced. -/
theorem sameArity_iff_balanced (row : Row) : SameArity row ↔ Balanced row := by
  have hdeclared := @declared_length row
  have hsig := @signature_length row
  have hdrop := List.length_drop (i := (upTo endsSignature row.parms).length) (l := prototypeColumns row)
  unfold SameArity
  constructor
  · intro h
    exact ⟨by omega, by omega⟩
  · rintro ⟨hreaches, hskips⟩
    omega

/-- The row of a function without parameters that is listed with the type `void`. -/
theorem void_not_sameArity :
    ¬ ∀ (line : Text) (row : Row), Row.ofLine line = some row → isStripFunction row.name = false → SameArity row := by
  intro h
  have hrow : Row.ofLine "\"getpid\",\"unistd.h\",\"\",\"pid_t\",\"void\"".toList =
      some ⟨"getpid".toList, "unistd.h".toList, [], "pid_t".toList, [void]⟩ := by decide
  have harity := h _ _ hrow (by decide)
  exact absurd harity (by unfold SameArity; decide)

/-! ## Rows in use -/

/-- Two searches that agree on every element but the last stop at the same place. -/
theorem length_upTo_zipIdx {p : Text → Bool} {q : Text × Nat → Bool} (args : List Text) (index : Nat)
    (h : ∀ l arg l', args = l ++ arg :: l' → l' = [] ∨ q (arg, index + l.length) = p arg) :
    (upTo q (args.zipIdx index)).length = (upTo p args).length := by
  induction args generalizing index with
  | nil => rfl
  | cons arg args ih =>
    have hrest : (upTo q (args.zipIdx (index + 1))).length = (upTo p args).length := by
      refine ih (index + 1) fun l b l' hl => ?_
      have hb := h (arg :: l) b l' (by rw [hl, List.cons_append])
      rwa [List.length_cons, Nat.add_comm l.length, ← Nat.add_assoc] at hb
    rw [List.zipIdx_cons, upTo, upTo, List.length_cons, List.length_cons]
    rcases h [] arg args rfl with rfl | hpq
    · split_ifs <;> rfl
    · rw [List.length_nil, Nat.add_zero] at hpq
      rw [hpq]
      split_ifs
      · rfl
      · rw [hrest]

/-- In a row in use the two passes stop at the same column. -/
theorem Regular.length_eq (h : Regular row) :
    (prototypeColumns row).length = (upTo endsSignature row.parms).length := by
  refine length_upTo_zipIdx row.parms parm1Index fun args arg args' hparms => ?_
  have hmem : arg ∈ row.parms := by rw [hparms]; simp
  have hcol : (arg, parm1Index + args.length) ∈ row.parms.zipIdx parm1Index := by
    rw [hparms, List.zipIdx_append, List.zipIdx_cons]
    simp
  by_cases hdots : arg = dots
  · right
    have hne := mt (h.format _ hcol) (not_not.2 hdots)
    have hsig : endsSignature dots = true := by decide
    rw [hdots, hsig]
    simp [endsPrototype, Ne.symm hne]
  · have hsig : endsSignature arg = false := by
      have hno := mt (h.alone arg hmem) hdots
      simp [endsSignature, hno]
    by_cases hva : arg = vaList ∧ findex row ≠ 0
    · exact .inl (h.last hva.2 args args' (hva.1 ▸ hparms))
    · right
      rw [hsig]
      simp only [not_and_or, not_not] at hva
      rcases hva with hva | hva <;> simp [endsPrototype, hdots, hva]

/-- In a row in use the numbers are the same exactly when no parameter is passed over. -/
theorem Regular.sameArity_iff (h : Regular row) :
    SameArity row ↔ ∀ col ∈ prototypeColumns row, skipped (findex row) col = false := by
  have hdeclared := @declared_length row
  have hsig := @signature_length row
  have hlen := h.length_eq
  have hzero : SameArity row ↔ (prototypeColumns row).countP (skipped (findex row)) = 0 := by
    unfold SameArity
    omega
  rw [hzero, List.countP_eq_zero]
  simp

end VelaWasm.Tools
