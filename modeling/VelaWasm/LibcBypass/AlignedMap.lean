/-
The map of aligned allocations: `g_aligned_memory_map` with `add_to_aligned_map` and
`remove_from_aligned_map`, and the two glue functions on it. `glue_posix_memalign` aligns the app
address of the native block and records it with the block; `glue_free` looks the app address up and
frees the recorded block in its place.
-/
import VelaWasm.Lib.SlotTable
import VelaWasm.Wamr

namespace VelaWasm.LibcBypass

open VelaWasm.SlotTable

/-! ## The map -/

/-- An entry of `g_aligned_memory_map`: the aligned app address and the raw native block. -/
abbrev AlignedEntry := Addr × Addr

/-- `add_to_aligned_map`: an entry is free when both its words are zero. Its `DEBUGASSERT` that no
entry before the free one has the key `mapped` is not part of a release build. -/
def addToAlignedMap (map : List AlignedEntry) (mapped raw : Addr) : List AlignedEntry × Bool :=
  let (map, slot) := fill id (0, 0) map (mapped, raw)
  (map, slot.isSome)

/-- `remove_from_aligned_map` -/
def removeFromAlignedMap (map : List AlignedEntry) (mapped : Addr) : List AlignedEntry × Addr :=
  if mapped = 0 then (map, 0)
  else
    match find Prod.fst mapped map with
    | none => (map, 0)
    | some i => (map.set i (0, 0), (map[i]?.map Prod.snd).getD 0)

/-! ## The glue -/

variable (W : Wamr)

/-- What `glue_posix_memalign` does: its result, what it leaves in `*memptr`, the block it frees
again, and the map. -/
structure MemalignResult where
  ret : UInt32
  memptr : Option Addr
  freed : Option Addr
  map : List AlignedEntry

/-- The app address handed to the application for the native block at `raw`. -/
def alignedAddr (env raw : Addr) (parm2 : UInt32) : Addr :=
  (W.addrNativeToApp (W.getModuleInst env) raw + parm2 - 1) &&& ~~~(parm2 - 1)

/-- `glue_posix_memalign`, given the block or the error of `posix_memalign(parm1, parm2, parm3 + parm2)` -/
def gluePosixMemalign (map : List AlignedEntry) (env : Addr) (parm2 : UInt32) (native : Except UInt32 Addr) :
    MemalignResult :=
  match native with
  | .error _ => ⟨0, none, none, map⟩
  | .ok raw =>
    let mapped := alignedAddr W env raw parm2
    match addToAlignedMap map mapped raw with
    | (map, true) => ⟨0, some mapped, none, map⟩
    | (map, false) => ⟨0, some mapped, some raw, map⟩

/-- `glue_free`: the map afterwards and the block passed to the native `free` -/
def glueFree (map : List AlignedEntry) (env parm1 : Addr) : List AlignedEntry × Addr :=
  let inst := W.getModuleInst env
  let parm1 := if parm1 = W.addrAppToNative inst null then null else parm1
  let (map, ret) :=
    if parm1 ≠ null then removeFromAlignedMap map (W.addrNativeToApp inst parm1) else (map, 0)
  (map, if ret ≠ 0 then ret else parm1)

variable {W} {map : List AlignedEntry}

/-! ## Additions -/

theorem addToAlignedMap_full {mapped raw : Addr} (h : find id (0, 0) map = none) :
    addToAlignedMap map mapped raw = (map, false) := by
  rw [addToAlignedMap, fill, h]
  rfl

theorem addToAlignedMap_free {i : Nat} {mapped raw : Addr} (h : find id (0, 0) map = some i) :
    addToAlignedMap map mapped raw = (map.set i (mapped, raw), true) := by
  rw [addToAlignedMap, fill, h]
  rfl

/-- With the map full the block is freed again, and the result is 0 all the same. -/
theorem gluePosixMemalign_full {env raw : Addr} {parm2 : UInt32} (h : find id (0, 0) map = none) :
    gluePosixMemalign W map env parm2 (.ok raw) = ⟨0, some (alignedAddr W env raw parm2), some raw, map⟩ := by
  simp only [gluePosixMemalign, addToAlignedMap_full h]

theorem gluePosixMemalign_free {env raw : Addr} {parm2 : UInt32} {i : Nat} (h : find id (0, 0) map = some i) :
    gluePosixMemalign W map env parm2 (.ok raw) =
      ⟨0, some (alignedAddr W env raw parm2), none, map.set i (alignedAddr W env raw parm2, raw)⟩ := by
  simp only [gluePosixMemalign, addToAlignedMap_free h]

/-! ## Lookups -/

theorem removeFromAlignedMap_some {i : Nat} {mapped raw : Addr} (hm : mapped ≠ 0)
    (hf : find Prod.fst mapped map = some i) (he : map[i]? = some (mapped, raw)) :
    removeFromAlignedMap map mapped = (map.set i (0, 0), raw) := by
  rw [removeFromAlignedMap, if_neg hm, hf]
  simp only [he, Option.map_some, Option.getD_some]

theorem removeFromAlignedMap_none {mapped : Addr} (hf : find Prod.fst mapped map = none) :
    removeFromAlignedMap map mapped = (map, 0) := by
  unfold removeFromAlignedMap
  split
  · rfl
  · rw [hf]

theorem glueFree_of_ne {env parm1 : Addr} (h : parm1 ≠ W.addrAppToNative (W.getModuleInst env) null)
    (hn : parm1 ≠ null) : glueFree W map env parm1 =
      let r := removeFromAlignedMap map (W.addrNativeToApp (W.getModuleInst env) parm1)
      (r.1, if r.2 ≠ 0 then r.2 else parm1) := by
  simp only [glueFree]
  rw [if_neg h, if_pos hn]

theorem glueFree_null {env parm1 : Addr} (h : parm1 = W.addrAppToNative (W.getModuleInst env) null ∨ parm1 = null) :
    glueFree W map env parm1 = (map, null) := by
  have hnull : (if parm1 = W.addrAppToNative (W.getModuleInst env) null then null else parm1) = null := by
    split_ifs with h'
    · rfl
    · exact h.resolve_left h'
  simp only [glueFree]
  rw [hnull]
  rfl

end VelaWasm.LibcBypass
