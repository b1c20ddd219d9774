/-
The IRQ bridge: the interrupt handler `__wasm_irq_hander` and the worker thread
`wasm_irq_thread_cb`, one step per visited node, rescan, test, store of `irq_status` and wait. The
handler runs as one step between two steps of the worker; a wasm handler call is two steps, so
interrupts also fire while it runs.
-/
import VelaWasm.Lib.NodeList
import VelaWasm.Wamr

namespace VelaWasm.Irq

/-! ## Data -/

/-- `WASM_IRQ_RUN` -/
def wasmIrqRun : Int := 1
/-- `WASM_IRQ_STOP` -/
def wasmIrqStop : Int := 0
/-- `WASM_IRQ_STATUS_RELEASED` -/
def wasmIrqStatusReleased : Int := 1

/-- `INT_MAX` of the 32-bit `atomic_int`. -/
def intMax : Int := 2147483647

/-- Addition of a 32-bit `atomic_int`. -/
def addInt (x y : Int) : Int := (x + y + 2147483648) % 4294967296 - 2147483648

/-- `wasm_irq_t`; its place in `irq_list` and its owner are the list's. -/
structure WasmIrq where
  status : Int
  id : UInt32
  refs : Int
  index : UInt32
  arg : UInt32
  deriving DecidableEq, Repr

/-- `wasm_irq_thread`, with the value of its semaphore. -/
structure WasmIrqThread where
  irqExit : Bool
  execEnv : Addr
  irqList : NodeList Addr WasmIrq
  irqStatus : Int
  wasmIrqSem : Nat

/-- Where the worker stands in `wasm_irq_thread_cb`. -/
inductive WorkerPc where
  /-- before `wasm_runtime_init_thread_env` -/
  | start
  /-- at `while (!irq_exit)` -/
  | loop
  /-- in `list_for_every_entry_safe`, with the nodes still to visit -/
  | visit (todo : List Addr)
  /-- in the wasm handler of a node -/
  | calling (node : Addr) (call : WasmCall) (todo : List Addr)
  /-- at the second traversal, which looks for a node with `refs > 0` -/
  | rescan
  /-- at `if (!flag && irq_exit == false)` -/
  | test (flag : Bool)
  /-- at the store of `WASM_IRQ_STOP` -/
  | storeStop
  /-- in `sem_wait` -/
  | wait
  /-- at the store of `WASM_IRQ_RUN` -/
  | storeRun
  | exited
  deriving DecidableEq, Repr

/-- The thread structure, the worker's place, and the interrupt lines masked at the controller. -/
structure IrqState where
  thread : WasmIrqThread
  pc : WorkerPc
  masked : List UInt32

/-! ## Steps -/

/-- `__wasm_irq_hander` on the node `n` at `p`. -/
def wasmIrqHander (s : IrqState) (p : Addr) (n : WasmIrq) : IrqState :=
  let irqList := s.thread.irqList.modify p fun m => { m with refs := addInt m.refs 1 }
  if s.thread.irqStatus = wasmIrqStop then
    { s with
      thread := { s.thread with irqList, wasmIrqSem := s.thread.wasmIrqSem + 1 }
      masked := n.id :: s.masked }
  else { s with thread := { s.thread with irqList } }

/-- One iteration of the first traversal, at the node `n` at `p`. -/
def visitNode (s : IrqState) (p : Addr) (n : WasmIrq) (todo : List Addr) : IrqState :=
  if n.status = wasmIrqStatusReleased then
    { s with thread := { s.thread with irqList := s.thread.irqList.erase p }, pc := .visit todo }
  else if 0 < n.refs then
    { s with pc := .calling p ⟨s.thread.execEnv, n.index, [n.arg]⟩ todo }
  else { s with pc := .visit todo }

/-- The return of the wasm handler of the node at `p`: `none` when the call failed, else what the
function left in the argument array, if it returned a value. -/
def callReturn (s : IrqState) (p : Addr) (todo : List Addr) : Option (Option UInt32) → IrqState
  | none => { s with thread := { s.thread with irqExit := true }, pc := .rescan }
  | some ret =>
    { s with
      thread := { s.thread with
        irqList := s.thread.irqList.modify p fun m =>
          { m with arg := ret.getD m.arg, refs := addInt m.refs (-1) } }
      pc := .visit todo }

/-- The flag the second traversal computes. -/
def rescan (l : NodeList Addr WasmIrq) : Bool := l.nodes.any fun p => decide (0 < p.2.refs)

/-- The next step of `wasm_irq_thread_cb`, apart from the two calls whose outcome it does not
choose; `none` while it is blocked or ended. -/
def workerStep (s : IrqState) : Option IrqState :=
  match s.pc with
  | .loop =>
    if s.thread.irqExit then some { s with pc := .exited }
    else if s.thread.irqList.nodes = [] then some { s with pc := .test false }
    else some { s with pc := .visit s.thread.irqList.addrs }
  | .visit [] => some { s with pc := .rescan }
  | .visit (p :: todo) => (s.thread.irqList.lookup p).map fun n => visitNode s p n todo
  | .rescan => some { s with pc := .test (rescan s.thread.irqList) }
  | .test flag => some { s with pc := if !flag && !s.thread.irqExit then .storeStop else .loop }
  | .storeStop => some { s with thread := { s.thread with irqStatus := wasmIrqStop }, pc := .wait }
  | .wait =>
    if s.thread.wasmIrqSem = 0 then none
    else some { s with thread := { s.thread with wasmIrqSem := s.thread.wasmIrqSem - 1 }, pc := .storeRun }
  | .storeRun => some { s with thread := { s.thread with irqStatus := wasmIrqRun }, pc := .loop }
  | .start | .calling .. | .exited => none

inductive Action where
  /-- the interrupt of a node fires -/
  | interrupt (node : Addr)
  /-- `irq_enable_wrapper` -/
  | irqEnable (irq : UInt32)
  /-- `irq_disable_wrapper` -/
  | irqDisable (irq : UInt32)
  /-- `wasm_runtime_init_thread_env` returns -/
  | initThreadEnv (ok : Bool)
  /-- the wasm handler returns -/
  | callReturn (result : Option (Option UInt32))
  /-- any other step of the worker -/
  | worker
  deriving DecidableEq, Repr

/-- One step of the bridge: an interrupt of a listed node whose line is not masked, a change of a
mask, or a step of the worker. -/
def step (s : IrqState) : Action → Option IrqState
  | .interrupt p =>
    match s.thread.irqList.lookup p with
    | none => none
    | some n => if n.id ∈ s.masked then none else some (wasmIrqHander s p n)
  | .irqEnable irq => some { s with masked := s.masked.filter (· ≠ irq) }
  | .irqDisable irq => some { s with masked := irq :: s.masked }
  | .initThreadEnv ok =>
    if s.pc = .start then some { s with pc := if ok then .loop else .exited } else none
  | .callReturn result =>
    match s.pc with
    | .calling p _ todo => some (callReturn s p todo result)
    | _ => none
  | .worker => workerStep s

/-! ## What a step does -/

variable {s t : IrqState}

theorem step_interrupt {p : Addr} (h : step s (.interrupt p) = some t) :
    ∃ n, s.thread.irqList.lookup p = some n ∧ n.id ∉ s.masked ∧ t = wasmIrqHander s p n := by
  simp only [step] at h
  split at h
  · cases h
  · rename_i n hn
    split_ifs at h with hm
    cases h
    exact ⟨n, hn, hm, rfl⟩

theorem step_initThreadEnv {ok : Bool} (h : step s (.initThreadEnv ok) = some t) :
    s.pc = .start ∧ t = { s with pc := if ok then .loop else .exited } := by
  simp only [step] at h
  split at h
  · rename_i hpc
    cases h
    exact ⟨hpc, rfl⟩
  · cases h

theorem step_callReturn {result : Option (Option UInt32)} (h : step s (.callReturn result) = some t) :
    ∃ p call todo, s.pc = .calling p call todo ∧ t = callReturn s p todo result := by
  simp only [step] at h
  split at h
  · rename_i p call todo hpc
    cases h
    exact ⟨p, call, todo, hpc, rfl⟩
  · cases h

/-- The worker visits a node, or it leaves the nodes as they are and calls no wasm handler. -/
theorem workerStep_cases (h : workerStep s = some t) :
    (∃ p todo n, s.pc = .visit (p :: todo) ∧ s.thread.irqList.lookup p = some n ∧ t = visitNode s p n todo) ∨
      t.thread.irqList = s.thread.irqList ∧ (∀ p todo, s.pc ≠ .visit (p :: todo)) ∧
        ∀ p call todo, t.pc ≠ .calling p call todo := by
  unfold workerStep at h
  split at h
  case h_1 hpc =>
    right
    split_ifs at h <;> cases h <;> simp [hpc]
  case h_3 p todo hpc =>
    obtain ⟨n, hn, rfl⟩ := Option.map_eq_some_iff.1 h
    exact .inl ⟨p, todo, n, hpc, hn, rfl⟩
  case h_5 flag hpc =>
    right
    cases h
    cases !flag && !s.thread.irqExit <;> simp [hpc]
  case h_7 hpc =>
    right
    split_ifs at h
    cases h
    simp [hpc]
  case h_9 => cases h
  case h_10 => cases h
  case h_11 => cases h
  all_goals
    rename_i hpc
    cases h
    simp [hpc]

end VelaWasm.Irq
