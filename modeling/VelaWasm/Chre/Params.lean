/-
Parameter structures that a module hands to CHRE: `chreWifiRequestScanAsyncWrapper`,
`chreWifiRequestRangingAsyncWrapper` and `chreBleStartScanAsyncWrapper` copy the structure and translate the offsets of
its arrays. The two Wi-Fi wrappers validate each array before; the BLE wrapper does not.
-/
import VelaWasm.Wamr

namespace VelaWasm.Chre

/-! ## The module's memory -/

/-- The memory of a module instance and the WAMR calls on it: `wasm_runtime_validate_app_addr` accepts the ranges
inside, `wasm_runtime_addr_app_to_native` translates the offsets inside and gives null for the others. -/
structure LinearMemory where
  base : Addr
  size : ℕ
  validateAppAddr : UInt64 → UInt64 → Bool
  addrAppToNative : UInt64 → Addr
  base_ne : base ≠ null
  validate_iff : ∀ offset n, validateAppAddr offset n = true ↔ offset.toNat + n.toNat ≤ size
  native_inside : ∀ offset, offset.toNat < size → (addrAppToNative offset).toNat = base.toNat + offset.toNat
  native_outside : ∀ offset, size ≤ offset.toNat → addrAppToNative offset = null

/-- What the CHRE headers and the compiler fix: the sizes of the structures, and the 64-bit integer that a
pointer is cast to. -/
structure Layout where
  scanParams : UInt32
  ssidListItem : UInt32
  rangingParams : UInt32
  rangingTarget : UInt32
  genericFilter : UInt32
  castPointer : Addr → UInt64
  small : ssidListItem.toNat < 65536 ∧ rangingTarget.toNat < 65536 ∧ genericFilter.toNat < 65536
  filter_pos : 0 < genericFilter.toNat

/-! ## The structures -/

/-- `chreWifiScanParams`, its fields with arrays -/
structure ChreWifiScanParams where
  frequencyListLen : UInt16
  frequencyList : Addr
  ssidListLen : UInt8
  ssidList : Addr

/-- `chreWifiRangingParams` -/
structure ChreWifiRangingParams where
  targetListLen : UInt8
  targetList : Addr

/-- `chreBleScanFilter` -/
structure ChreBleScanFilter where
  rssiThreshold : UInt8
  scanFilterCount : UInt8
  scanFilters : Addr

/-! ## The wrappers -/

section

variable (M : LinearMemory) (L : Layout)

/-- A pointer of the module as a native one. -/
def nativePointer (p : Addr) : Addr := M.addrAppToNative (L.castPointer p)

/-- The parameters that `chreWifiRequestScanAsync` is called with, none when the wrapper returns false before.
`params` is what stands at a native address. -/
def chreWifiRequestScanAsyncWrapper (params : Addr → ChreWifiScanParams) (offsetParams : UInt32) :
    Option ChreWifiScanParams :=
  if ¬ M.validateAppAddr offsetParams.toUInt64 L.scanParams.toUInt64 then none
  else
    let nativeParams := params (M.addrAppToNative offsetParams.toUInt64)
    if ¬ M.validateAppAddr (L.castPointer nativeParams.frequencyList)
        (nativeParams.frequencyListLen.toUInt32 * 4).toUInt64 then none
    else if ¬ M.validateAppAddr (L.castPointer nativeParams.ssidList)
        (nativeParams.ssidListLen.toUInt32 * L.ssidListItem).toUInt64 then none
    else
      some { nativeParams with
        frequencyList := nativePointer M L nativeParams.frequencyList
        ssidList := nativePointer M L nativeParams.ssidList }

/-- The parameters that `chreWifiRequestRangingAsync` is called with. -/
def chreWifiRequestRangingAsyncWrapper (params : Addr → ChreWifiRangingParams) (offsetParams : UInt32) :
    Option ChreWifiRangingParams :=
  if ¬ M.validateAppAddr offsetParams.toUInt64 L.rangingParams.toUInt64 then none
  else
    let nativeParams := params (M.addrAppToNative offsetParams.toUInt64)
    if ¬ M.validateAppAddr (L.castPointer nativeParams.targetList)
        (nativeParams.targetListLen.toUInt32 * L.rangingTarget).toUInt64 then none
    else some { nativeParams with targetList := nativePointer M L nativeParams.targetList }

/-- The filter that `chreBleStartScanAsync` is called with, none for `nullptr`. -/
def chreBleStartScanAsyncWrapper (params : Addr → ChreBleScanFilter) (filter : Addr) : Option ChreBleScanFilter :=
  if filter = null then none
  else
    some {
      rssiThreshold := (params filter).rssiThreshold
      scanFilterCount := (params filter).scanFilterCount
      scanFilters := nativePointer M L (params filter).scanFilters }

/-! ## The property -/

/-- An array: its address and its length in bytes. -/
structure NativeArray where
  address : Addr
  bytes : ℕ

def ChreWifiScanParams.arrays (params : ChreWifiScanParams) : List NativeArray :=
  [⟨params.frequencyList, params.frequencyListLen.toNat * 4⟩,
    ⟨params.ssidList, params.ssidListLen.toNat * L.ssidListItem.toNat⟩]

def ChreWifiRangingParams.arrays (params : ChreWifiRangingParams) : List NativeArray :=
  [⟨params.targetList, params.targetListLen.toNat * L.rangingTarget.toNat⟩]

def ChreBleScanFilter.arrays (filter : ChreBleScanFilter) : List NativeArray :=
  [⟨filter.scanFilters, filter.scanFilterCount.toNat * L.genericFilter.toNat⟩]

/-- A call of one of the wrappers. -/
inductive ParamsCall where
  | wifiScan (params : Addr → ChreWifiScanParams) (offsetParams : UInt32)
  | wifiRanging (params : Addr → ChreWifiRangingParams) (offsetParams : UInt32)
  | bleScan (params : Addr → ChreBleScanFilter) (filter : Addr)

/-- The arrays in the structure that CHRE is given, if it is given one. -/
def ParamsCall.arrays : ParamsCall → List NativeArray
  | wifiScan params offset =>
    (chreWifiRequestScanAsyncWrapper M L params offset).elim [] fun params => params.arrays L
  | wifiRanging params offset =>
    (chreWifiRequestRangingAsyncWrapper M L params offset).elim [] fun params => params.arrays L
  | bleScan params filter => (chreBleStartScanAsyncWrapper M L params filter).elim [] fun filter => filter.arrays L

/-- Each byte of the array is in the module's memory. -/
def Inside (a : NativeArray) : Prop :=
  ∀ i < a.bytes, M.base.toNat ≤ a.address.toNat + i ∧ a.address.toNat + i < M.base.toNat + M.size

/-- CHRE gets no array that is not in the module's memory. -/
def Confined (c : ParamsCall) : Prop := ∀ a ∈ c.arrays M L, Inside M a

/-- The filters of a BLE scan, if there are any, lie inside of the memory. -/
def FiltersInRange : ParamsCall → Prop
  | .bleScan params filter =>
    filter ≠ null → (params filter).scanFilterCount ≠ 0 →
      (L.castPointer (params filter).scanFilters).toNat +
        (params filter).scanFilterCount.toNat * L.genericFilter.toNat ≤ M.size
  | _ => True

end

/-! ## One array -/

variable {M : LinearMemory} {L : Layout} {offset : UInt64} {n : ℕ}

/-- A translated array is in the memory exactly when it is empty or its range is. -/
theorem inside_iff : Inside M ⟨M.addrAppToNative offset, n⟩ ↔ n = 0 ∨ offset.toNat + n ≤ M.size := by
  constructor
  · intro h
    by_contra hne
    rw [not_or] at hne
    by_cases hin : offset.toNat < M.size
    · have hlast := (h (n - 1) (show n - 1 < n by omega)).2
      rw [M.native_inside offset hin] at hlast
      omega
    · have hfirst := (h 0 (show 0 < n by omega)).1
      rw [M.native_outside offset (by omega)] at hfirst
      have hbase : M.base.toNat ≠ 0 := fun h0 => M.base_ne (UInt32.toNat_inj.1 h0)
      exact hbase (Nat.le_zero.1 hfirst)
  · intro h i hi
    have hin : offset.toNat < M.size := by
      have hi' : i < n := hi
      omega
    show M.base.toNat ≤ (M.addrAppToNative offset).toNat + i ∧ _ < _
    have hi' : i < n := hi
    rw [M.native_inside offset hin]
    omega

/-- `count * sizeof(...)` does not overflow. -/
theorem bytes_eq {count size : UInt32} (h : count.toNat * size.toNat < 4294967296) :
    (count * size).toUInt64.toNat = count.toNat * size.toNat := by
  rw [UInt32.toNat_toUInt64, UInt32.toNat_mul]
  exact Nat.mod_eq_of_lt h

/-- A validated array is in the memory. -/
theorem inside_of_validated {count size : UInt32} {p : Addr} (h : count.toNat * size.toNat < 4294967296)
    (hv : M.validateAppAddr (L.castPointer p) (count * size).toUInt64 = true) :
    Inside M ⟨nativePointer M L p, count.toNat * size.toNat⟩ := by
  rw [M.validate_iff, bytes_eq h] at hv
  exact inside_iff.2 (.inr hv)

theorem byteCount_lt (count : UInt8) {size : UInt32} (h : size.toNat < 65536) :
    count.toUInt32.toNat * size.toNat < 4294967296 := by
  have hcount : count.toUInt32.toNat < 256 := count.toNat_lt
  calc count.toUInt32.toNat * size.toNat ≤ 256 * 65536 := Nat.mul_le_mul (Nat.le_of_lt hcount) (Nat.le_of_lt h)
    _ < 4294967296 := by decide

/-! ## The wrappers -/

theorem inside_of_wifiScan {params : Addr → ChreWifiScanParams} {offsetParams : UInt32} {given : ChreWifiScanParams}
    (h : chreWifiRequestScanAsyncWrapper M L params offsetParams = some given) : ∀ a ∈ given.arrays L, Inside M a := by
  unfold chreWifiRequestScanAsyncWrapper at h
  simp only [ite_not] at h
  split_ifs at h with hparams hfrequency hssid
  cases h
  generalize params (M.addrAppToNative offsetParams.toUInt64) = p at hfrequency hssid ⊢
  intro a ha
  rcases List.mem_cons.1 ha with rfl | ha
  · have hlen : p.frequencyListLen.toNat < 65536 := p.frequencyListLen.toNat_lt
    have hcount : p.frequencyListLen.toUInt32.toNat * (4 : UInt32).toNat < 4294967296 := by
      show p.frequencyListLen.toNat * 4 < 4294967296
      omega
    exact inside_of_validated hcount hfrequency
  · rw [List.mem_singleton.1 ha]
    exact inside_of_validated (byteCount_lt p.ssidListLen L.small.1) hssid

theorem inside_of_wifiRanging {params : Addr → ChreWifiRangingParams} {offsetParams : UInt32}
    {given : ChreWifiRangingParams} (h : chreWifiRequestRangingAsyncWrapper M L params offsetParams = some given) :
    ∀ a ∈ given.arrays L, Inside M a := by
  unfold chreWifiRequestRangingAsyncWrapper at h
  simp only [ite_not] at h
  split_ifs at h with hparams htarget
  cases h
  intro a ha
  rw [List.mem_singleton.1 ha]
  exact inside_of_validated (byteCount_lt _ L.small.2.1) htarget

/-- The filters are translated without a check. -/
theorem bleScan_arrays {params : Addr → ChreBleScanFilter} {filter : Addr} (h : filter ≠ null) :
    (ParamsCall.bleScan params filter).arrays M L = [⟨nativePointer M L (params filter).scanFilters,
      (params filter).scanFilterCount.toNat * L.genericFilter.toNat⟩] := by
  simp only [ParamsCall.arrays, chreBleStartScanAsyncWrapper, if_neg h]
  rfl

/-- A call of which CHRE gets no structure is confined. -/
theorem inside_of_elim {P : Type} {given : Option P} {arrays : P → List NativeArray}
    (h : ∀ params, given = some params → ∀ a ∈ arrays params, Inside M a) : ∀ a ∈ given.elim [] arrays, Inside M a := by
  cases given with
  | none => exact fun _ ha => (by cases ha)
  | some params => exact h params rfl

/-- A call is confined exactly when it is no BLE scan with filters outside of the memory. -/
theorem confined_iff (c : ParamsCall) : Confined M L c ↔ FiltersInRange M L c := by
  cases c with
  | wifiScan params offsetParams => exact iff_of_true (inside_of_elim fun _ => inside_of_wifiScan) trivial
  | wifiRanging params offsetParams => exact iff_of_true (inside_of_elim fun _ => inside_of_wifiRanging) trivial
  | bleScan params filter =>
    by_cases hf : filter = null
    · refine iff_of_true (fun a ha => ?_) fun h => absurd hf h
      simp only [ParamsCall.arrays, chreBleStartScanAsyncWrapper, if_pos hf] at ha
      cases ha
    · have hpos := L.filter_pos
      have hzero : (params filter).scanFilterCount.toNat * L.genericFilter.toNat = 0 ↔
          (params filter).scanFilterCount = 0 := by
        rw [Nat.mul_eq_zero, ← UInt8.toNat_inj]
        exact or_iff_left (by omega)
      rw [Confined, bleScan_arrays hf, List.forall_mem_singleton, nativePointer, inside_iff, hzero, or_iff_not_imp_left]
      exact ⟨fun h _ => h, fun h => h hf⟩

/-- An instance with memory at `base`. -/
def LinearMemory.at (base : Addr) (size : ℕ) (hbase : base ≠ null) (hfit : base.toNat + size ≤ 4294967296) :
    LinearMemory where
  base := base
  size := size
  validateAppAddr offset n := decide (offset.toNat + n.toNat ≤ size)
  addrAppToNative offset := if offset.toNat < size then base + offset.toUInt32 else null
  base_ne := hbase
  validate_iff _ _ := decide_eq_true_iff
  native_inside offset h := by
    rw [if_pos h, UInt32.toNat_add, UInt64.toNat_toUInt32]
    omega
  native_outside offset h := if_neg (Nat.not_lt.2 h)

/-- The layout of the target. -/
def targetLayout : Layout where
  scanParams := 20
  ssidListItem := 33
  rangingParams := 8
  rangingTarget := 24
  genericFilter := 60
  castPointer := UInt32.toUInt64
  small := by decide
  filter_pos := by decide

/-- One filter, of which only the first bytes are in the memory. -/
theorem bleScan_not_confined :
    ¬ ∀ (M : LinearMemory) (L : Layout) (c : ParamsCall), Confined M L c := by
  intro h
  have hconfined := h (.at 0x1000 0x10000 (by decide) (by decide)) targetLayout
    (.bleScan (fun _ => ⟨0, 1, 0xfff0⟩) 0x2000)
  have hinside := hconfined ⟨0x10ff0, 60⟩ List.mem_cons_self
  exact absurd (hinside 59 (by decide)).2 (by decide)

end VelaWasm.Chre
