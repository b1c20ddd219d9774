/-
Format strings as the bypassed libc reads them: the case labels that `va_list_string2conv` and
`_vprintf_wa` share, the arguments a format consumes, and the two layouts of an argument area, one
argument after the other or with the 8-byte arguments aligned.
-/
import Mathlib.Tactic.Common

namespace VelaWasm.LibcBypass

/-! ## Directives -/

/-- The labels of the `switch (*format)` of both walkers. -/
inductive CharClass where
  | flag | size | max | long | half | int | float | str | other
  deriving DecidableEq, Repr

def charClass : Char → CharClass
  | '.' | '+' | '-' | ' ' | '#' | '0' | '1' | '2' | '3' | '4' | '5' | '6' | '7' | '8' | '9' => .flag
  | 't' | 'z' => .size
  | 'j' => .max
  | 'l' => .long
  | 'h' => .half
  | 'o' | 'd' | 'i' | 'u' | 'p' | 'x' | 'X' | 'c' => .int
  | 'e' | 'E' | 'g' | 'G' | 'f' | 'F' => .float
  | 's' => .str
  | _ => .other

/-- What a directive takes from the argument area: a 4-byte word, an 8-byte integer or double, or the
address of a string. -/
inductive ArgKind where
  | word | wide | string
  deriving DecidableEq, Repr

/-- The arguments of a format, read inside a directive (`might`) with `longCtr` counted so far, or
between directives. -/
def argKinds : (might : Bool) → (longCtr : Nat) → List Char → List ArgKind
  | _, _, [] => []
  | false, longCtr, c :: fmt => if c = '%' then argKinds true 0 fmt else argKinds false longCtr fmt
  | true, longCtr, c :: fmt =>
    match charClass c with
    | .flag | .half => argKinds true longCtr fmt
    | .size => argKinds true 1 fmt
    | .max => argKinds true 2 fmt
    | .long => argKinds true (longCtr + 1) fmt
    | .int => (if longCtr < 2 then .word else .wide) :: argKinds false longCtr fmt
    | .float => .wide :: argKinds false longCtr fmt
    | .str => .string :: argKinds false longCtr fmt
    | .other => argKinds false longCtr fmt

/-! ## Layouts -/

/-- The next multiple of 8. -/
def align8 (p : Nat) : Nat := (p + 7) / 8 * 8

/-- Where the strings stand when the arguments follow each other from `p` on. -/
def packedStrings : Nat → List ArgKind → List Nat
  | _, [] => []
  | p, .word :: ks => packedStrings (p + 4) ks
  | p, .wide :: ks => packedStrings (p + 8) ks
  | p, .string :: ks => p :: packedStrings (p + 4) ks

/-- Where the strings stand when the 8-byte arguments are aligned. -/
def alignedStrings : Nat → List ArgKind → List Nat
  | _, [] => []
  | p, .word :: ks => alignedStrings (p + 4) ks
  | p, .wide :: ks => alignedStrings (align8 p + 8) ks
  | p, .string :: ks => p :: alignedStrings (p + 4) ks

/-- The arguments and where they stand when the 8-byte ones are aligned. -/
def alignedArgs : Nat → List ArgKind → List (ArgKind × Nat)
  | _, [] => []
  | p, .word :: ks => (.word, p) :: alignedArgs (p + 4) ks
  | p, .wide :: ks => (.wide, align8 p) :: alignedArgs (align8 p + 8) ks
  | p, .string :: ks => (.string, p) :: alignedArgs (p + 4) ks

/-- The end of the area with the 8-byte arguments aligned. -/
def areaEnd : Nat → List ArgKind → Nat
  | p, [] => p
  | p, .word :: ks => areaEnd (p + 4) ks
  | p, .wide :: ks => areaEnd (align8 p + 8) ks
  | p, .string :: ks => areaEnd (p + 4) ks

/-- Every 8-byte argument with a string somewhere behind it comes after an even number of 4-byte ones,
`odd` of which have been passed. -/
def InPhase : (odd : Bool) → List ArgKind → Prop
  | _, [] => True
  | odd, .wide :: ks => (.string ∈ ks → odd = false) ∧ InPhase odd ks
  | odd, .word :: ks | odd, .string :: ks => InPhase (!odd) ks

instance InPhase.decidable : ∀ odd ks, Decidable (InPhase odd ks)
  | _, [] => isTrue trivial
  | odd, .wide :: ks =>
    have := InPhase.decidable odd ks
    inferInstanceAs (Decidable (_ ∧ _))
  | odd, .word :: ks | odd, .string :: ks => InPhase.decidable (!odd) ks

theorem mem_alignedStrings_iff {a : Nat} : ∀ {p : Nat} {ks : List ArgKind},
    a ∈ alignedStrings p ks ↔ (.string, a) ∈ alignedArgs p ks
  | _, [] => by simp [alignedStrings, alignedArgs]
  | p, .word :: ks => by simp [alignedStrings, alignedArgs, mem_alignedStrings_iff (p := p + 4)]
  | p, .wide :: ks => by simp [alignedStrings, alignedArgs, mem_alignedStrings_iff (p := align8 p + 8)]
  | p, .string :: ks => by simp [alignedStrings, alignedArgs, mem_alignedStrings_iff (p := p + 4)]

theorem le_align8 (p : Nat) : p ≤ align8 p := by
  unfold align8
  omega

theorem align8_of_even {p : Nat} (h : p % 8 = 0) : align8 p = p := by
  unfold align8
  omega

theorem le_areaEnd : ∀ (p : Nat) (ks : List ArgKind), p ≤ areaEnd p ks
  | _, [] => Nat.le_refl _
  | p, .word :: ks | p, .string :: ks => by
    have := le_areaEnd (p + 4) ks
    unfold areaEnd
    omega
  | p, .wide :: ks => by
    have := le_areaEnd (align8 p + 8) ks
    have := le_align8 p
    unfold areaEnd
    omega

theorem le_of_mem_aligned : ∀ {p a : Nat} {ks : List ArgKind}, a ∈ alignedStrings p ks → p ≤ a
  | _, _, [], h => by cases h
  | p, a, .word :: ks, h => by
    have := le_of_mem_aligned (p := p + 4) h
    omega
  | p, a, .wide :: ks, h => by
    have := le_of_mem_aligned (p := align8 p + 8) h
    have := le_align8 p
    omega
  | p, a, .string :: ks, h => by
    rcases List.mem_cons.1 h with rfl | h
    · exact Nat.le_refl _
    · have := le_of_mem_aligned (p := p + 4) h
      omega

theorem lt_of_mem_aligned : ∀ {p a : Nat} {ks : List ArgKind}, a ∈ alignedStrings p ks → a + 4 ≤ areaEnd p ks
  | _, _, [], h => by cases h
  | p, _, .word :: ks, h => lt_of_mem_aligned (p := p + 4) h
  | p, _, .wide :: ks, h => lt_of_mem_aligned (p := align8 p + 8) h
  | p, a, .string :: ks, h => by
    rcases List.mem_cons.1 h with rfl | h
    · exact le_areaEnd _ ks
    · exact lt_of_mem_aligned (p := p + 4) h

theorem lt_of_mem_packed : ∀ {p q a : Nat} {ks : List ArgKind}, p ≤ q → a ∈ packedStrings p ks →
    a + 4 ≤ areaEnd q ks
  | _, _, _, [], _, h => by cases h
  | p, q, _, .word :: ks, hpq, h => lt_of_mem_packed (p := p + 4) (q := q + 4) (by omega) h
  | p, q, _, .wide :: ks, hpq, h => by
    have hq := le_align8 q
    exact lt_of_mem_packed (p := p + 8) (q := align8 q + 8) (by omega) h
  | p, q, a, .string :: ks, hpq, h => by
    rcases List.mem_cons.1 h with rfl | h
    · have := le_areaEnd (q + 4) ks
      unfold areaEnd
      omega
    · exact lt_of_mem_packed (p := p + 4) (q := q + 4) (by omega) h

theorem le_of_mem_packed : ∀ {p a : Nat} {ks : List ArgKind}, a ∈ packedStrings p ks → p ≤ a
  | _, _, [], h => by cases h
  | p, a, .word :: ks, h => by
    have := le_of_mem_packed (p := p + 4) h
    omega
  | p, a, .wide :: ks, h => by
    have := le_of_mem_packed (p := p + 8) h
    omega
  | p, a, .string :: ks, h => by
    rcases List.mem_cons.1 h with rfl | h
    · exact Nat.le_refl _
    · have := le_of_mem_packed (p := p + 4) h
      omega

theorem nodup_packedStrings : ∀ (p : Nat) (ks : List ArgKind), (packedStrings p ks).Nodup
  | _, [] => List.nodup_nil
  | p, .word :: ks => nodup_packedStrings (p + 4) ks
  | p, .wide :: ks => nodup_packedStrings (p + 8) ks
  | p, .string :: ks => by
    refine List.nodup_cons.2 ⟨fun h => ?_, nodup_packedStrings (p + 4) ks⟩
    have := le_of_mem_packed h
    omega

theorem packedStrings_eq_nil : ∀ {p : Nat} {ks : List ArgKind}, .string ∉ ks → packedStrings p ks = []
  | _, [], _ => rfl
  | p, .word :: _, h => packedStrings_eq_nil (p := p + 4) fun h' => h (List.mem_cons_of_mem _ h')
  | p, .wide :: _, h => packedStrings_eq_nil (p := p + 8) fun h' => h (List.mem_cons_of_mem _ h')
  | _, .string :: _, h => absurd List.mem_cons_self h

theorem alignedStrings_eq_nil : ∀ {p : Nat} {ks : List ArgKind}, .string ∉ ks → alignedStrings p ks = []
  | _, [], _ => rfl
  | p, .word :: _, h => alignedStrings_eq_nil (p := p + 4) fun h' => h (List.mem_cons_of_mem _ h')
  | p, .wide :: _, h => alignedStrings_eq_nil (p := align8 p + 8) fun h' => h (List.mem_cons_of_mem _ h')
  | _, .string :: _, h => absurd List.mem_cons_self h

/-! ## When the layouts agree -/

/-- The parity of the number of 4-byte arguments, read off a position. -/
def oddAt (p : Nat) : Bool := p % 8 == 4

theorem oddAt_add4 {p : Nat} (h : p % 4 = 0) : oddAt (p + 4) = !oddAt p := by
  unfold oddAt
  have hp : p % 8 = 0 ∨ p % 8 = 4 := by omega
  have hq : (p + 4) % 8 = 4 - p % 8 := by omega
  rw [hq]
  rcases hp with hp | hp <;> rw [hp] <;> rfl

theorem oddAt_add8 (p : Nat) : oddAt (p + 8) = oddAt p := by
  unfold oddAt
  rw [Nat.add_mod_right]

theorem strings_eq_of_inPhase : ∀ {p : Nat} {ks : List ArgKind}, p % 4 = 0 → InPhase (oddAt p) ks →
    packedStrings p ks = alignedStrings p ks
  | _, [], _, _ => rfl
  | p, .word :: ks, hp, h => by
    refine strings_eq_of_inPhase (p := p + 4) (by omega) ?_
    rw [oddAt_add4 hp]
    exact h
  | p, .string :: ks, hp, h => by
    refine congrArg (p :: ·) (strings_eq_of_inPhase (p := p + 4) (by omega) ?_)
    rw [oddAt_add4 hp]
    exact h
  | p, .wide :: ks, hp, ⟨heven, h⟩ => by
    by_cases hs : ArgKind.string ∈ ks
    · have h8 : p % 8 = 0 := by
        have hodd := heven hs
        unfold oddAt at hodd
        simp only [beq_eq_false_iff_ne, ne_eq] at hodd
        omega
      show packedStrings (p + 8) ks = alignedStrings (align8 p + 8) ks
      rw [align8_of_even h8]
      exact strings_eq_of_inPhase (by omega) (by rw [oddAt_add8]; exact h)
    · show packedStrings (p + 8) ks = alignedStrings (align8 p + 8) ks
      rw [packedStrings_eq_nil hs, alignedStrings_eq_nil hs]

/-- Once the aligned layout is ahead, its last string stands behind every string of the packed one. -/
theorem exists_behind : ∀ {p q : Nat} {ks : List ArgKind}, p < q → .string ∈ ks →
    ∃ a ∈ alignedStrings q ks, ∀ b ∈ packedStrings p ks, b < a
  | _, _, [], _, h => by cases h
  | p, q, .word :: ks, hpq, h => by
    have hs : ArgKind.string ∈ ks := by simpa using h
    exact exists_behind (p := p + 4) (q := q + 4) (by omega) hs
  | p, q, .wide :: ks, hpq, h => by
    have hs : ArgKind.string ∈ ks := by simpa using h
    have hq := le_align8 q
    exact exists_behind (p := p + 8) (q := align8 q + 8) (by omega) hs
  | p, q, .string :: ks, hpq, _ => by
    by_cases hs : ArgKind.string ∈ ks
    · obtain ⟨a, ha, hlt⟩ := exists_behind (p := p + 4) (q := q + 4) (by omega) hs
      refine ⟨a, List.mem_cons_of_mem _ ha, fun b hb => ?_⟩
      rcases List.mem_cons.1 hb with rfl | hb
      · have := le_of_mem_aligned ha
        omega
      · exact hlt b hb
    · refine ⟨q, List.mem_cons_self, fun b hb => ?_⟩
      rcases List.mem_cons.1 hb with rfl | hb
      · exact hpq
      · rw [packedStrings_eq_nil hs] at hb
        cases hb

theorem inPhase_of_no_string : ∀ {odd : Bool} {ks : List ArgKind}, .string ∉ ks → InPhase odd ks
  | _, [], _ => trivial
  | odd, .word :: _, h => @inPhase_of_no_string (!odd) _ fun h' => h (List.mem_cons_of_mem _ h')
  | _, .wide :: _, h =>
    ⟨fun h' => absurd (List.mem_cons_of_mem _ h') h, inPhase_of_no_string fun h' => h (List.mem_cons_of_mem _ h')⟩
  | _, .string :: _, h => absurd List.mem_cons_self h

theorem exists_behind_of_not_inPhase : ∀ {p : Nat} {ks : List ArgKind}, p % 4 = 0 → ¬ InPhase (oddAt p) ks →
    ∃ a ∈ alignedStrings p ks, ∀ b ∈ packedStrings p ks, b < a
  | _, [], _, h => absurd trivial h
  | p, .word :: ks, hp, h => by
    refine exists_behind_of_not_inPhase (p := p + 4) (by omega) ?_
    rw [oddAt_add4 hp]
    exact h
  | p, .string :: ks, hp, h => by
    have hrest : ¬ InPhase (oddAt (p + 4)) ks := by
      rw [oddAt_add4 hp]
      exact h
    obtain ⟨a, ha, hlt⟩ := exists_behind_of_not_inPhase (p := p + 4) (by omega) hrest
    refine ⟨a, List.mem_cons_of_mem _ ha, fun b hb => ?_⟩
    rcases List.mem_cons.1 hb with rfl | hb
    · have := le_of_mem_aligned ha
      omega
    · exact hlt b hb
  | p, .wide :: ks, hp, h => by
    by_cases hs : ArgKind.string ∈ ks
    · by_cases h8 : p % 8 = 0
      · have hodd : oddAt p = false := by
          unfold oddAt
          rw [h8]
          rfl
        show ∃ a ∈ alignedStrings (align8 p + 8) ks, ∀ b ∈ packedStrings (p + 8) ks, b < a
        rw [align8_of_even h8]
        refine exists_behind_of_not_inPhase (by omega) ?_
        rw [oddAt_add8]
        exact fun h' => h ⟨fun _ => hodd, h'⟩
      · have halign : p < align8 p := by
          unfold align8
          omega
        exact exists_behind (p := p + 8) (q := align8 p + 8) (by omega) hs
    · exact absurd ⟨fun hs' => absurd hs' hs, inPhase_of_no_string hs⟩ h

/-- The two layouts put the strings at the same places exactly when they are in phase. -/
theorem strings_agree_iff {p : Nat} {ks : List ArgKind} (hp : p % 8 = 0) :
    (∀ a, a ∈ packedStrings p ks ↔ a ∈ alignedStrings p ks) ↔ InPhase false ks := by
  have hodd : oddAt p = false := by
    unfold oddAt
    rw [hp]
    rfl
  constructor
  · intro h
    by_contra hn
    obtain ⟨a, ha, hlt⟩ := exists_behind_of_not_inPhase (p := p) (by omega) (by rwa [hodd])
    exact absurd (hlt a ((h a).2 ha)) (Nat.lt_irrefl a)
  · intro h a
    rw [strings_eq_of_inPhase (p := p) (by omega) (by rwa [hodd])]

end VelaWasm.LibcBypass
