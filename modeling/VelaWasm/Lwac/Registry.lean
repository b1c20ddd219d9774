/-
The registry of running modules. `lwac__register_wasm_module` links a record at the head of
`g_module_list_head`, `lwac__unregister_wasm_module` unlinks the first record of an instance, and
`lwac__print_running_modules` prints a row for each record while it holds the read lock.
-/
import VelaWasm.Wamr

namespace VelaWasm.Lwac

/-- A C string without its terminator. -/
abbrev CString := List Char

/-! ## Records -/

/-- `wasm_module_info_t`; its `next` is the order of the list. -/
structure WasmModuleInfo where
  moduleId : UInt32
  name : CString
  stackSize : Int32
  heapSize : Int32
  startTime : Int64
  wasmModule : Addr
  moduleInst : Addr
  execEnv : Addr
  deriving DecidableEq, Repr

/-- `sizeof(module_info->name)` -/
def nameSize : ℕ := 64

/-- `g_module_list_head` and `g_module_id_counter` -/
structure Registry where
  moduleListHead : List WasmModuleInfo
  moduleIdCounter : UInt32
  deriving DecidableEq, Repr

/-- `lwac__register_wasm_module`; `allocated` says whether `malloc` has memory for the record. -/
def lwacRegisterWasmModule (r : Registry) (allocated : Bool) (now : Int64) (name : CString)
    (stackSize heapSize : Int32) (wasmModule moduleInst execEnv : Addr) : Registry × Option WasmModuleInfo :=
  if allocated then
    let moduleInfo : WasmModuleInfo :=
      ⟨r.moduleIdCounter + 1, name.take (nameSize - 1), stackSize, heapSize, now, wasmModule, moduleInst, execEnv⟩
    (⟨moduleInfo :: r.moduleListHead, r.moduleIdCounter + 1⟩, some moduleInfo)
  else (r, none)

/-- The loop of `lwac__unregister_wasm_module`: the list without the first record of the instance. -/
def unlink (moduleInst : Addr) : List WasmModuleInfo → Option (List WasmModuleInfo)
  | [] => none
  | current :: next =>
    if current.moduleInst = moduleInst then some next
    else (unlink moduleInst next).map (current :: ·)

/-- `lwac__unregister_wasm_module` -/
def lwacUnregisterWasmModule (r : Registry) (moduleInst : Addr) : Registry × Int32 :=
  match unlink moduleInst r.moduleListHead with
  | none => (r, -1)
  | some l => ({ r with moduleListHead := l }, 0)

theorem unlink_eq_none {inst : Addr} {l : List WasmModuleInfo} (h : ∀ m ∈ l, m.moduleInst ≠ inst) :
    unlink inst l = none := by
  induction l with
  | nil => rfl
  | cons m l ih =>
    rw [unlink, if_neg (h m List.mem_cons_self), ih fun k hk => h k (List.mem_cons_of_mem _ hk)]
    rfl

/-- The first record of the instance is the one that is unlinked. -/
theorem unlink_of_mem {inst : Addr} {l : List WasmModuleInfo} {m : WasmModuleInfo} (hm : m ∈ l)
    (hi : m.moduleInst = inst) : unlink inst l = some (l.eraseP fun m => m.moduleInst = inst) := by
  induction l with
  | nil => cases hm
  | cons k l ih =>
    by_cases hk : k.moduleInst = inst
    · rw [unlink, if_pos hk, List.eraseP_cons_of_pos (by simpa using hk)]
    · have hml : m ∈ l := by
        rcases List.mem_cons.1 hm with rfl | hml
        · exact absurd hi hk
        · exact hml
      rw [unlink, if_neg hk, ih hml, List.eraseP_cons_of_neg (by simpa using hk)]
      rfl

theorem lwacUnregister_of_mem {r : Registry} {inst : Addr} {m : WasmModuleInfo} (hm : m ∈ r.moduleListHead)
    (hi : m.moduleInst = inst) : lwacUnregisterWasmModule r inst =
      ({ r with moduleListHead := r.moduleListHead.eraseP fun m => m.moduleInst = inst }, 0) := by
  rw [lwacUnregisterWasmModule, unlink_of_mem hm hi]

/-- An instance without a record changes nothing. -/
theorem lwacUnregister_of_ne {r : Registry} {inst : Addr} (h : ∀ m ∈ r.moduleListHead, m.moduleInst ≠ inst) :
    lwacUnregisterWasmModule r inst = (r, -1) := by
  rw [lwacUnregisterWasmModule, unlink_eq_none h]

/-- With and without a record of the instance. -/
theorem lwacUnregister_moduleListHead (r : Registry) (inst : Addr) :
    (lwacUnregisterWasmModule r inst).1.moduleListHead =
      r.moduleListHead.eraseP fun m => m.moduleInst = inst := by
  by_cases h : ∃ m ∈ r.moduleListHead, m.moduleInst = inst
  · obtain ⟨m, hm, hi⟩ := h
    rw [lwacUnregister_of_mem hm hi]
  · have hne : ∀ m ∈ r.moduleListHead, m.moduleInst ≠ inst := fun m hm hi => h ⟨m, hm, hi⟩
    rw [lwacUnregister_of_ne hne, List.eraseP_of_forall_not]
    intro m hm
    simpa using hne m hm

/-! ## Printing -/

/-- `mem_alloc_info_t`, as filled by `wasm_runtime_get_mem_alloc_info` -/
structure MemAllocInfo where
  totalSize : UInt32
  usedSize : UInt32
  freeSize : UInt32
  totalFreeSize : UInt32
  deriving DecidableEq, Repr

/-- A row of the table; `none` is printed as `N/A`. -/
structure Row where
  moduleId : UInt32
  name : CString
  stackSize : Int32
  heap : Option (UInt32 × UInt32 × UInt32)
  auxUsed : Option UInt32
  hours : Int32
  minutes : Int32
  seconds : Int32
  deriving DecidableEq, Repr

/-- A call of `lwac__print_running_modules` inside its lock: `current_time` and the records from
`current` on, and the rows it has printed. -/
structure Printer where
  currentTime : Int64
  current : List WasmModuleInfo
  rows : List Row
  deriving DecidableEq, Repr

/-- The exec env the printer passes to `wasm_runtime_get_aux_stack_info` next. -/
def Printer.auxStackEnv (p : Printer) : Option Addr := p.current.head?.map WasmModuleInfo.execEnv

/-- The row of a record. `profiling` is `CONFIG_INTERPRETERS_WAMR_MEMORY_PROFILING`; `aux` is the
`current_aux_stack_used` that the exec env of the record reports. -/
def printRow (profiling : Bool) (currentTime : Int64) (current : WasmModuleInfo) (heapInfo : Option MemAllocInfo)
    (aux : Option UInt32) : Row :=
  let elapsedSeconds := currentTime - current.startTime
  { moduleId := current.moduleId
    name := current.name
    stackSize := current.stackSize
    heap := heapInfo.map fun heapInfo =>
      if profiling then (heapInfo.totalSize, heapInfo.usedSize, heapInfo.freeSize)
      else (heapInfo.totalSize, heapInfo.totalSize - heapInfo.totalFreeSize, heapInfo.totalFreeSize)
    auxUsed := if profiling && heapInfo.isSome then aux else none
    hours := (elapsedSeconds / 3600).toInt32
    minutes := (elapsedSeconds % 3600 / 60).toInt32
    seconds := (elapsedSeconds % 60).toInt32 }

/-- One round of the printer's loop. -/
def Printer.print (profiling : Bool) (p : Printer) (heapInfo : Option MemAllocInfo) (aux : Option UInt32) :
    Option Printer :=
  match p.current with
  | [] => none
  | current :: next =>
    some { p with current := next, rows := p.rows ++ [printRow profiling p.currentTime current heapInfo aux] }

theorem Printer.print_current {profiling : Bool} {p q : Printer} {heapInfo : Option MemAllocInfo}
    {aux : Option UInt32} (h : p.print profiling heapInfo aux = some q) : q.current ⊆ p.current := by
  unfold Printer.print at h
  split at h
  · cases h
  · next m l hc =>
    cases h
    rw [hc]
    exact List.subset_cons_self m l

end VelaWasm.Lwac
