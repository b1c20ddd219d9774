/-
`glue_posix_memalign` against the contract of `posix_memalign`. It asks the native allocator for enough memory to
align the app address inside the block, but its failures look like its success: the result is 0 in every case.
-/
import VelaWasm.Lib.Align
import VelaWasm.LibcBypass.AlignedMap
import Mathlib.Order.Interval.Set.LinearOrder

namespace VelaWasm.LibcBypass

open VelaWasm.Align VelaWasm.SlotTable

/-! ## The contract -/

/-- `posix_memalign`, given the alignment and the size: a block or an error code. -/
abbrev NativeMemalign := UInt32 → UInt32 → Except UInt32 Addr

/-- A call of `glue_posix_memalign`. -/
def posixMemalignCall (W : Wamr) (native : NativeMemalign) (map : List AlignedEntry) (env : Addr)
    (parm2 parm3 : UInt32) : MemalignResult :=
  gluePosixMemalign W map env parm2 (native parm2 (parm3 + parm2))

/-- The bytes of a native block. -/
def blockBytes (raw : Addr) (size : UInt32) : Set ℕ := Set.Ico raw.toNat (raw.toNat + size.toNat)

/-- A native block is for a power of two, and ends in the address space. -/
structure NativeBlock (align size : UInt32) (raw : Addr) : Prop where
  power : ∃ k, align.toNat = 2 ^ k
  inside : raw.toNat + size.toNat ≤ 2 ^ 32

section

variable (W : Wamr) (native : NativeMemalign) (env : Addr) (align size : UInt32) (r : MemalignResult)

/-- `*memptr` is an aligned app address of the requested size in the native block, which is kept and recorded. -/
def Allocated : Prop :=
  ∃ raw p, native align (size + align) = .ok raw ∧ r.memptr = some p ∧ p ≠ null ∧ align.toNat ∣ p.toNat ∧
    blockBytes (W.addrAppToNative (W.getModuleInst env) p) size ⊆ blockBytes raw (size + align) ∧
    r.freed = none ∧ (p, raw) ∈ r.map

/-- No native block is left, and `*memptr` leads to none that has been freed. -/
def Released : Prop :=
  ∀ raw, native align (size + align) = .ok raw → r.freed = some raw ∧
    ∀ p, r.memptr = some p →
      (W.addrAppToNative (W.getModuleInst env) p).toNat ∉ blockBytes raw (size + align)

/-- 0 for an allocation, an error code without one. -/
def HonoursContract : Prop :=
  (r.ret = 0 ∧ Allocated W native env align size r) ∨ (r.ret ≠ 0 ∧ Released W native env align size r)

end

/-! ## Where an allocation ends up -/

variable {inst base : Addr → Addr} {native : NativeMemalign} {map : List AlignedEntry} {env raw : Addr}
  {align size : UInt32} {W : Wamr}

/-- Success and failure are the same to the caller. -/
theorem posixMemalign_ret : (posixMemalignCall W native map env align size).ret = 0 := by
  unfold posixMemalignCall gluePosixMemalign
  cases native align (size + align) with
  | error e => rfl
  | ok raw =>
    simp only
    split <;> rfl

theorem honours_iff_allocated : HonoursContract W native env align size (posixMemalignCall W native map env align size) ↔
    Allocated W native env align size (posixMemalignCall W native map env align size) := by
  simp [HonoursContract, posixMemalign_ret]

/-- The app address of a native block. -/
def appAddr (inst base : Addr → Addr) (env raw : Addr) : Addr := raw - base (inst env)

theorem toNat_alignedAddr (h : NativeBlock align (size + align) raw) :
    (alignedAddr (.linear inst base) env raw align).toNat =
      if (appAddr inst base env raw).toNat + align.toNat ≤ 2 ^ 32 then
        roundUp (appAddr inst base env raw).toNat align.toNat else 0 := by
  obtain ⟨k, hk⟩ := h.power
  exact toNat_roundUp _ hk

/-- The size asked for, as a number. -/
theorem toNat_request : (size + align).toNat = (size.toNat + align.toNat) % 2 ^ 32 := UInt32.toNat_add _ _

/-- The aligned address is in the block when neither its own computation nor that of the block's size wraps. -/
theorem alignedAddr_inside (h : NativeBlock align (size + align) raw) (hsize : size.toNat + align.toNat < 2 ^ 32)
    (happ : (appAddr inst base env raw).toNat + align.toNat ≤ 2 ^ 32) :
    blockBytes (alignedAddr (.linear inst base) env raw align + base (inst env)) size ⊆
      blockBytes raw (size + align) := by
  have hmapped : (alignedAddr (.linear inst base) env raw align).toNat =
      roundUp (appAddr inst base env raw).toNat align.toNat := by
    rw [toNat_alignedAddr h, if_pos happ]
  have hpos : 0 < align.toNat := by
    obtain ⟨k, hk⟩ := h.power
    exact hk ▸ Nat.two_pow_pos k
  have hle := le_roundUp (n := (appAddr inst base env raw).toNat) hpos
  have hlt := roundUp_lt (n := (appAddr inst base env raw).toNat) hpos
  have hend := h.inside
  rw [toNat_request, Nat.mod_eq_of_lt hsize] at hend
  -- how far the aligned address is behind the block's
  have hoff : (alignedAddr (.linear inst base) env raw align - appAddr inst base env raw).toNat =
      roundUp (appAddr inst base env raw).toNat align.toNat - (appAddr inst base env raw).toNat := by
    rw [UInt32.toNat_sub_of_le _ _ (UInt32.le_iff_toNat_le.2 (hmapped ▸ hle)), hmapped]
  have hsum : alignedAddr (.linear inst base) env raw align + base (inst env) =
      raw + (alignedAddr (.linear inst base) env raw align - appAddr inst base env raw) := by
    unfold appAddr
    grind
  have hnative : (alignedAddr (.linear inst base) env raw align + base (inst env)).toNat = raw.toNat +
      (roundUp (appAddr inst base env raw).toNat align.toNat - (appAddr inst base env raw).toNat) := by
    rw [hsum, UInt32.toNat_add, hoff, Nat.mod_eq_of_lt (by omega)]
  unfold blockBytes
  rw [hnative, toNat_request, Nat.mod_eq_of_lt hsize]
  exact Set.Ico_subset_Ico (by omega) (by omega)

/-- When the block's size wraps it is too small. -/
theorem not_inside_of_wraps {p : Addr} (h : 2 ^ 32 ≤ size.toNat + align.toNat) :
    ¬ blockBytes p size ⊆ blockBytes raw (size + align) := by
  have hsize := size.toNat_lt
  have halign := align.toNat_lt
  intro hsub
  rw [blockBytes, blockBytes, Set.Ico_subset_Ico_iff (by omega), toNat_request] at hsub
  omega

/-- The app address is not null when it is not that of the block and the alignment does not wrap. -/
theorem alignedAddr_ne_null_iff (h : NativeBlock align (size + align) raw) :
    alignedAddr (.linear inst base) env raw align ≠ null ↔
      0 < (appAddr inst base env raw).toNat ∧ (appAddr inst base env raw).toNat + align.toNat ≤ 2 ^ 32 := by
  have hpos : 0 < align.toNat := by
    obtain ⟨k, hk⟩ := h.power
    exact hk ▸ Nat.two_pow_pos k
  rw [ne_eq, ← UInt32.toNat_inj, toNat_alignedAddr h]
  have hzero : (null : Addr).toNat = 0 := rfl
  rw [hzero]
  split_ifs with happ
  · have hle := le_roundUp (n := (appAddr inst base env raw).toNat) hpos
    constructor
    · intro hne
      refine ⟨Nat.pos_of_ne_zero fun h0 => hne ?_, happ⟩
      rw [h0, roundUp, Nat.div_eq_of_lt (by omega), Nat.zero_mul]
    · rintro ⟨ha, -⟩
      omega
  · exact iff_of_false (fun hn => hn rfl) fun hn => happ hn.2

/-! ## When the contract is kept -/

/-- The native call succeeds, the map has a free entry, and neither the size nor the aligned address wraps, nor is
the block the application's null. -/
def AllocationFits (inst base : Addr → Addr) (native : NativeMemalign) (map : List AlignedEntry) (env : Addr)
    (align size : UInt32) : Prop :=
  ∃ raw, native align (size + align) = .ok raw ∧ (0, 0) ∈ map ∧ size.toNat + align.toNat < 2 ^ 32 ∧
    0 < (appAddr inst base env raw).toNat ∧ (appAddr inst base env raw).toNat + align.toNat ≤ 2 ^ 32

/-- A native block that gets an entry of the map is allocated when nothing wraps and its app address is not the
null. -/
theorem allocated_free_iff {i : ℕ} (hn : native align (size + align) = .ok raw)
    (hblock : NativeBlock align (size + align) raw) (hfind : find id (0, 0) map = some i) :
    Allocated (.linear inst base) native env align size
        (gluePosixMemalign (.linear inst base) map env align (.ok raw)) ↔
      size.toNat + align.toNat < 2 ^ 32 ∧ 0 < (appAddr inst base env raw).toNat ∧
        (appAddr inst base env raw).toNat + align.toNat ≤ 2 ^ 32 := by
  obtain ⟨e, hi, -, -⟩ := find_eq_some.1 hfind
  have hrecorded : (alignedAddr (.linear inst base) env raw align, raw) ∈
      map.set i (alignedAddr (.linear inst base) env raw align, raw) :=
    List.mem_set (List.getElem?_eq_some_iff.1 hi).1 _
  rw [gluePosixMemalign_free hfind]
  constructor
  · rintro ⟨raw', p, hraw, hp, hne, -, hinside, -, -⟩
    rw [hn] at hraw
    cases hraw
    cases hp
    obtain ⟨hpos, happ⟩ := (alignedAddr_ne_null_iff hblock).1 hne
    refine ⟨?_, hpos, happ⟩
    by_contra hwrap
    exact not_inside_of_wraps (Nat.le_of_not_lt hwrap) hinside
  · rintro ⟨hsize, hpos, happ⟩
    have hdvd : align.toNat ∣ (alignedAddr (.linear inst base) env raw align).toNat := by
      rw [toNat_alignedAddr hblock, if_pos happ]
      exact Dvd.intro_left _ rfl
    exact ⟨raw, _, hn, rfl, (alignedAddr_ne_null_iff hblock).2 ⟨hpos, happ⟩, hdvd,
      alignedAddr_inside hblock hsize happ, rfl, hrecorded⟩

/-- `glue_posix_memalign` keeps the contract exactly when it succeeds and nothing wraps. -/
theorem posixMemalign_honours_iff (h : ∀ raw, native align (size + align) = .ok raw →
      NativeBlock align (size + align) raw) :
    HonoursContract (.linear inst base) native env align size
        (posixMemalignCall (.linear inst base) native map env align size) ↔
      AllocationFits inst base native map env align size := by
  rw [honours_iff_allocated]
  cases hn : native align (size + align) with
  | error e => exact iff_of_false (by simp [Allocated, hn]) (by simp [AllocationFits, hn])
  | ok raw =>
    unfold posixMemalignCall
    rw [hn]
    cases hfind : find id (0, 0) map with
    | none =>
      have hfull : (0, 0) ∉ map := fun hm => find_eq_none.1 hfind (0, 0) hm rfl
      rw [gluePosixMemalign_full hfind]
      exact iff_of_false (by simp [Allocated]) (by simp [AllocationFits, hfull])
    | some i =>
      obtain ⟨e, hi, he, -⟩ := find_eq_some.1 hfind
      have hfree : (0, 0) ∈ map := by
        rw [← show e = (0, 0) from he]
        exact List.mem_of_getElem? hi
      rw [allocated_free_iff hn (h raw hn) hfind]
      constructor
      · exact fun hfits => ⟨raw, hn, hfree, hfits⟩
      · rintro ⟨raw', hraw, -, hfits⟩
        rw [hn] at hraw
        cases hraw
        exact hfits

/-- 32 bytes at a multiple of 16, in a map with a free entry. -/
theorem posixMemalign_honours_fitting :
    HonoursContract (.linear id fun _ => 0x1000) (fun _ _ => .ok 0x2018) 1 16 32
      (posixMemalignCall (.linear id fun _ => 0x1000) (fun _ _ => .ok 0x2018) [(0x900, 0x1900), (0, 0)] 1 16 32) := by
  refine (posixMemalign_honours_iff fun raw hraw => ?_).2 ⟨0x2018, rfl, by decide, by decide, by decide, by decide⟩
  cases hraw
  exact ⟨⟨4, rfl⟩, by decide⟩

/-- `ENOMEM` -/
def enomem : UInt32 := 12

/-- An allocation that fails looks like a success. -/
theorem failedMemalign_not_honours :
    ¬ ∀ (inst base : Addr → Addr) (native : NativeMemalign) (map : List AlignedEntry) (env : Addr)
      (align size : UInt32),
      (∀ raw, native align (size + align) = .ok raw → NativeBlock align (size + align) raw) →
      HonoursContract (.linear inst base) native env align size
        (posixMemalignCall (.linear inst base) native map env align size) := by
  intro h
  have hnone : ∀ raw : Addr, (Except.error enomem : Except UInt32 Addr) = .ok raw → NativeBlock 16 (32 + 16) raw :=
    fun raw hraw => by cases hraw
  rcases h id (fun _ => 0x1000) (fun _ _ => .error enomem) [(0, 0)] 1 16 32 hnone with ⟨-, raw, p, hraw, -⟩ | ⟨hret, -⟩
  · cases hraw
  · exact hret rfl

end VelaWasm.LibcBypass
