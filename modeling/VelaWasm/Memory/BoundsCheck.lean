/-
`aot_bounds_check` of the BL616, which takes the place of the runtime's own check so that wasm code can reach the
registers. The end of the access is computed modulo 2^32, so an access at the top of the address space can seem to
end below the region.
-/
import VelaWasm.Wamr
import Mathlib.Algebra.Group.Nat.Defs
import Mathlib.Order.Interval.Set.LinearOrder

namespace VelaWasm.Memory

def registerRegionStart : UInt32 := 0x20000000

def registerRegionEnd : UInt32 := 0x20072000

/-- `aot_bounds_check`: what it returns and logs. -/
def aotBoundsCheck (offset bytes : UInt32) : Addr × List String :=
  if offset + bytes > registerRegionEnd then (null, ["WASM register access out of bounds"])
  else if offset < registerRegionStart then (null, ["Wasm register access before start of region"])
  else (offset, [])

/-- The addresses of an access. -/
def accessed (offset bytes : UInt32) : Set ℕ := Set.Ico offset.toNat (offset.toNat + bytes.toNat)

def registerRegion : Set ℕ := Set.Ico registerRegionStart.toNat registerRegionEnd.toNat

/-- Only accesses inside the region are let through, and each of these that is not empty. -/
def CheckExact (offset bytes : UInt32) : Prop :=
  ((aotBoundsCheck offset bytes).1 ≠ null → accessed offset bytes ⊆ registerRegion) ∧
    (bytes ≠ 0 → accessed offset bytes ⊆ registerRegion → (aotBoundsCheck offset bytes).1 = offset)

/-- The access ends before 2^32, or is refused although its end is computed modulo 2^32. -/
def EndComputed (offset bytes : UInt32) : Prop :=
  offset.toNat + bytes.toNat < 2 ^ 32 ∨ registerRegionEnd < offset + bytes ∨ offset < registerRegionStart

instance (offset bytes : UInt32) : Decidable (EndComputed offset bytes) := inferInstanceAs (Decidable (_ ∨ _ ∨ _))

variable {offset bytes : UInt32}

theorem checked_iff : (aotBoundsCheck offset bytes).1 ≠ null ↔
    offset + bytes ≤ registerRegionEnd ∧ registerRegionStart ≤ offset := by
  unfold aotBoundsCheck
  split_ifs with hend hstart
  · simpa using fun h : offset + bytes ≤ registerRegionEnd => absurd hend (UInt32.not_lt.2 h)
  · simpa using fun _ : offset + bytes ≤ registerRegionEnd => hstart
  · have hne : offset ≠ null := by
      rintro rfl
      exact hstart (by decide)
    exact iff_of_true hne ⟨UInt32.not_lt.1 hend, UInt32.not_lt.1 hstart⟩

/-- What is let through has its own address. -/
theorem checked_offset (h : (aotBoundsCheck offset bytes).1 ≠ null) : (aotBoundsCheck offset bytes).1 = offset := by
  unfold aotBoundsCheck at h ⊢
  split_ifs at h ⊢
  · exact absurd rfl h
  · exact absurd rfl h
  · rfl

theorem accessed_subset_iff : accessed offset bytes ⊆ registerRegion ↔
    (bytes ≠ 0 → registerRegionStart.toNat ≤ offset.toNat ∧
      offset.toNat + bytes.toNat ≤ registerRegionEnd.toNat) := by
  by_cases hb : bytes = 0
  · subst hb
    simp [accessed]
  · have hpos : 0 < bytes.toNat := Nat.pos_of_ne_zero fun h => hb (UInt32.toNat_inj.1 h)
    rw [imp_iff_right hb, accessed, registerRegion, Set.Ico_subset_Ico_iff (by omega)]

/-- The check is exact just where its sum is not misled. -/
theorem checkExact_iff : CheckExact offset bytes ↔ EndComputed offset bytes := by
  have hend : registerRegionEnd.toNat = 0x20072000 := rfl
  have ho := offset.toNat_lt
  have hb := bytes.toNat_lt
  have hzero : bytes = 0 ↔ bytes.toNat = 0 := UInt32.toNat_inj.symm
  unfold CheckExact EndComputed
  constructor
  · rintro ⟨hinside, -⟩
    by_contra hn
    simp only [not_or, not_lt, UInt32.not_lt] at hn
    obtain ⟨hwrap, hle, hstart⟩ := hn
    have hne : bytes ≠ 0 := fun h => by
      rw [hzero.1 h] at hwrap
      omega
    have := (accessed_subset_iff.1 (hinside (checked_iff.2 ⟨hle, hstart⟩)) hne).2
    omega
  · intro h
    have hsum : (offset + bytes).toNat = (offset.toNat + bytes.toNat) % 2 ^ 32 := UInt32.toNat_add _ _
    constructor
    · intro hchecked
      obtain ⟨hle, hstart⟩ := checked_iff.1 hchecked
      rw [UInt32.le_iff_toNat_le] at hle hstart
      refine accessed_subset_iff.2 fun _ => ⟨hstart, ?_⟩
      rcases h with h | h | h
      · omega
      · rw [UInt32.lt_iff_toNat_lt] at h
        omega
      · rw [UInt32.lt_iff_toNat_lt] at h
        omega
    · intro hne hsub
      obtain ⟨hstart, hle⟩ := accessed_subset_iff.1 hsub hne
      refine checked_offset (checked_iff.2 ⟨?_, UInt32.le_iff_toNat_le.2 hstart⟩)
      rw [UInt32.le_iff_toNat_le]
      omega

/-- The last byte of the address space is let through. -/
theorem lastByte_not_exact : ¬ ∀ offset bytes : UInt32, CheckExact offset bytes := by
  intro h
  have hinside := (h 0xffffffff 1).1 (by decide)
  have hlast : 0xffffffff ∈ registerRegion := hinside (by simp [accessed])
  revert hlast
  simp [registerRegion, registerRegionEnd]

end VelaWasm.Memory
