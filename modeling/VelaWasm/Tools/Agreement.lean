/-
The prototype and the signature of a glue function. `generate_functions` declares every parameter and
every result as a 32-bit word, so the two passes agree exactly on the rows whose signature has a word's
letter at each declared parameter and for the result.
-/
import VelaWasm.Tools.MkWamrGlue

namespace VelaWasm.Tools

/-! ## Machine classes -/

inductive MachineClass where
  | word | long | float | double
  deriving DecidableEq, Repr

/-- How WAMR passes an argument of a signature letter on the 32-bit target. -/
def letterClass : Char → Option MachineClass
  | 'i' | '*' | '$' => some .word
  | 'I' => some .long
  | 'f' => some .float
  | 'F' => some .double
  | _ => none

/-- `uintptr_t` and `va_list` are words. -/
def Parm.machineClass : Parm → MachineClass
  | .format | .ap | .parm _ => .word

/-- The class of the declared result, none for `void`. -/
def returnClass (rettype : Text) : Option MachineClass := if noreturn rettype then none else some .word

/-- Each declared parameter has a letter of its class at its position, and so has the result. -/
structure Agree (row : Row) : Prop where
  parms : ∀ (k : Nat) (p : Parm), row.declared[k]? = some p →
    ((signature row.parms)[k]?).bind letterClass = some p.machineClass
  ret : (retval row.rettype).bind letterClass = returnClass row.rettype

/-! ## The condition on a row -/

/-- The elements up to the first that satisfies `p`, that one included. -/
def upTo {α : Type} (p : α → Bool) : List α → List α
  | [] => []
  | a :: as => a :: if p a then [] else upTo p as

/-- A type whose letter stands for a 64-bit integer or a floating-point argument. -/
def wideParm (arg : Text) : Bool :=
  !contains "(*)".toList arg && (contains "float".toList arg || contains "double".toList arg ||
    contains "long long".toList arg || (!contains "char *".toList arg && contains "off_t".toList arg))

def wideReturn (rettype : Text) : Bool :=
  !noreturn rettype && !contains "*".toList rettype && (contains "off_t".toList rettype ||
    contains "time_t".toList rettype || contains "double".toList rettype || contains "float".toList rettype ||
    contains "long long".toList rettype)

/-- A type at which the signature ends: it has `...` and none of the types before the last branch. -/
def endsSignature (arg : Text) : Bool := (typeLetter arg).isNone && contains dots arg

/-- A column at which the prototype ends: `...`, or `va_list` of a formatting function. -/
def endsPrototype (findex : Nat) (col : Text × Nat) : Bool :=
  decide (findex ≠ col.2) && (col.1 == dots || (col.1 == vaList && decide (findex ≠ 0)))

/-- The columns that get a parameter: all up to the end of the prototype but `void`. -/
def parameterColumns (findex : Nat) (cols : List (Text × Nat)) : List (Text × Nat) :=
  (upTo (endsPrototype findex) cols).filter fun col => decide (findex = col.2) || !(col.1 == void)

/-- As many columns of the signature as there are parameters, all of them narrow, and a narrow result. -/
structure Narrow (row : Row) : Prop where
  length : (parameterColumns (findex row) (row.parms.zipIdx parm1Index)).length ≤
    (upTo endsSignature row.parms).length
  parms : ∀ arg ∈ (upTo endsSignature row.parms).take
    (parameterColumns (findex row) (row.parms.zipIdx parm1Index)).length, wideParm arg = false
  ret : wideReturn row.rettype = false

/-! ## Letters -/

theorem signature_eq (args : List Text) : signature args = (upTo endsSignature args).map letter := by
  induction args with
  | nil => rfl
  | cons arg args ih =>
    cases h : typeLetter arg with
    | some l =>
      have hl : letter arg = l := by rw [letter, h, Option.getD_some]
      have he : endsSignature arg = false := by rw [endsSignature, h]; rfl
      rw [signature, upTo, h, he, ih, List.map_cons, hl]
      rfl
    | none =>
      have hl : letter arg = defaultLetter arg := by rw [letter, h, Option.getD_none]
      have he : endsSignature arg = contains dots arg := by rw [endsSignature, h]; rfl
      rw [signature, upTo, h, he, List.map_cons, hl]
      simp only
      split_ifs
      · rfl
      · rw [ih]

theorem letterClass_letter (arg : Text) : letterClass (letter arg) = some .word ↔ wideParm arg = false := by
  have hdefault : letterClass (defaultLetter arg) = some .word := by
    unfold defaultLetter
    split_ifs <;> rfl
  unfold letter typeLetter wideParm
  split_ifs with hf hfl hd hl hc ho hu hv <;> simp_all [letterClass]

theorem retval_class (rettype : Text) :
    (retval rettype).bind letterClass = returnClass rettype ↔ wideReturn rettype = false := by
  unfold retval returnClass wideReturn
  split_ifs with hn hp ho ht hd hf hl <;> simp_all [letterClass]

theorem declareParms_length (findex : Nat) (index : Nat) (args : List Text) :
    (declareParms findex index args).length = (parameterColumns findex (args.zipIdx index)).length := by
  induction args generalizing index with
  | nil => rfl
  | cons arg args ih =>
    have hrest := ih (index + 1)
    unfold parameterColumns at hrest ⊢
    rw [List.zipIdx_cons, upTo]
    unfold declareParms
    by_cases hfi : findex = index
    · have hend : endsPrototype findex (arg, index) = false := by simp [endsPrototype, hfi]
      rw [if_pos hfi, hend, List.length_cons, hrest, List.filter_cons]
      simp [hfi]
    · rw [if_neg hfi]
      by_cases hdots : arg = dots
      · have hend : endsPrototype findex (arg, index) = true := by simp [endsPrototype, hfi, hdots]
        have hvoid : (arg == void) = false := by rw [hdots]; decide
        rw [if_pos hdots, hend, List.filter_cons]
        simp [hvoid]
      · rw [if_neg hdots]
        by_cases hva : arg = vaList ∧ findex ≠ 0
        · have hend : endsPrototype findex (arg, index) = true := by simp [endsPrototype, hfi, hva]
          have hvoid : (arg == void) = false := by rw [hva.1]; decide
          rw [if_pos hva, hend, List.filter_cons]
          simp [hvoid]
        · have hend : endsPrototype findex (arg, index) = false := by
            simpa [endsPrototype, hfi, hdots] using hva
          rw [if_neg hva, hend, List.filter_cons]
          by_cases hvoid : arg = void
          · rw [if_pos hvoid, hrest]
            simp [hvoid, hfi]
          · rw [if_neg hvoid, List.length_cons, hrest]
            simp [hvoid]

/-! ## Agreement -/

/-- The letters that stand for a word are those of the narrow columns. -/
theorem signature_word_iff (args : List Text) (k : Nat) : ((signature args)[k]?).bind letterClass = some .word ↔
    ∃ arg, (upTo endsSignature args)[k]? = some arg ∧ wideParm arg = false := by
  rw [signature_eq, List.getElem?_map]
  simp only [Option.bind_eq_some_iff, Option.map_eq_some_iff]
  constructor
  · rintro ⟨l, ⟨arg, harg, rfl⟩, hl⟩
    exact ⟨arg, harg, (letterClass_letter arg).1 hl⟩
  · rintro ⟨arg, harg, hl⟩
    exact ⟨_, ⟨arg, harg, rfl⟩, (letterClass_letter arg).2 hl⟩

/-- A list has elements with a property at all positions below `n` exactly when it is that long and
its first `n` elements have the property. -/
theorem forall_getElem?_iff {α : Type} {P : α → Prop} {l : List α} {n : Nat} :
    (∀ k < n, ∃ a, l[k]? = some a ∧ P a) ↔ n ≤ l.length ∧ ∀ a ∈ l.take n, P a := by
  constructor
  · intro h
    constructor
    · by_contra hgt
      obtain ⟨a, ha, -⟩ := h l.length (by omega)
      rw [List.getElem?_eq_none (Nat.le_refl _)] at ha
      cases ha
    · intro a ha
      obtain ⟨k, hk, hka⟩ := List.mem_take_iff_getElem.1 ha
      obtain ⟨b, hb, hP⟩ := h k (by omega)
      rw [List.getElem?_eq_getElem (by omega), hka] at hb
      exact Option.some.inj hb ▸ hP
  · rintro ⟨hl, hP⟩ k hk
    have hkl : k < l.length := by omega
    exact ⟨l[k], List.getElem?_eq_getElem hkl, hP _ (List.mem_take_iff_getElem.2 ⟨k, by omega, rfl⟩)⟩

/-- The passes agree on a row exactly when the row is narrow. -/
theorem agree_iff_narrow (row : Row) : Agree row ↔ Narrow row := by
  have hword : ∀ p : Parm, p.machineClass = .word := fun p => by cases p <;> rfl
  have hparms : (∀ (k : Nat) (p : Parm), row.declared[k]? = some p →
      ((signature row.parms)[k]?).bind letterClass = some p.machineClass) ↔
      ∀ k < row.declared.length, ∃ arg, (upTo endsSignature row.parms)[k]? = some arg ∧ wideParm arg = false := by
    constructor
    · intro h k hk
      have hpk := h k _ (List.getElem?_eq_getElem hk)
      rw [hword] at hpk
      exact (signature_word_iff _ k).1 hpk
    · intro h k p hp
      rw [hword]
      exact (signature_word_iff _ k).2 (h k (List.getElem?_eq_some_iff.1 hp).1)
  rw [forall_getElem?_iff] at hparms
  have hlen : row.declared.length = (parameterColumns (findex row) (row.parms.zipIdx parm1Index)).length :=
    declareParms_length _ _ _
  rw [hlen] at hparms
  constructor
  · rintro ⟨hp, hr⟩
    obtain ⟨hl, hp⟩ := hparms.1 hp
    exact ⟨hl, hp, (retval_class _).1 hr⟩
  · rintro ⟨hl, hp, hr⟩
    exact ⟨hparms.2 ⟨hl, hp⟩, (retval_class _).2 hr⟩

/-- The row of a function on doubles: its parameter is declared as a word and registered as `F`. -/
theorem double_row_disagrees :
    ¬ ∀ (line : Text) (row : Row), Row.ofLine line = some row → isStripFunction row.name = false → Agree row := by
  intro h
  have hrow : Row.ofLine "\"fabs\",\"math.h\",\"\",\"double\",\"double\"".toList =
      some ⟨"fabs".toList, "math.h".toList, [], "double".toList, ["double".toList]⟩ := by decide
  have hparm := (h _ _ hrow (by decide)).parms 0 (.parm 1) (by decide)
  exact absurd hparm (by decide)

end VelaWasm.Tools
