/-
The lifetime of what an interrupt vector refers to. `irq_attach_wrapper` installs a vector that holds a
node, and no wrapper ever detaches it; the node is freed by the worker's sweep once it is released, and
the `wasm_irq_thread` it points to by `irq_uninitialize_wrapper`, which frees no node. Vectors stay sound
along a run exactly when each sweep frees a node whose line has been attached again, and each shutdown
joins a worker that has swept every node.
-/
import VelaWasm.Irq.Shutdown
import Mathlib.Data.List.Count

namespace VelaWasm.Irq

open VelaWasm.Run

/-! ## Data -/

/-- An allocated `wasm_irq_thread`, its worker, and the call of `wasm_irq_thread_exit` on it. For the
proofs: the number of nodes registered on it, the serial number of the registration at each node, and the
serial numbers of the nodes its worker has freed. -/
structure IrqThread where
  thread : WasmIrqThread
  ptIrq : Int32
  isIrqEnable : Bool
  pc : WorkerPc
  exitPc : ExitPc
  registered : ℕ
  serial : Addr → ℕ
  freed : List ℕ

/-- The addresses of the nodes in `irq_list`. -/
def IrqThread.addrs (th : IrqThread) : List Addr := th.thread.irqList.addrs

/-- The allocated threads, the user data of the exec envs, the installed vectors with their nodes, the
masked lines, and the nodes whose thread was freed before them. For the proofs: what was registered and
freed on each thread that has been uninitialised. -/
structure IrqSystem where
  threads : NodeList Addr IrqThread
  userData : Addr → Addr
  vectors : List (UInt32 × Addr)
  masked : List UInt32
  leaked : List Addr
  ended : List (ℕ × List ℕ)

def IrqSystem.start : IrqSystem := ⟨⟨[], List.nodup_nil⟩, fun _ => null, [], [], [], []⟩

/-- `malloc` returns an address that is not null and not in use. -/
def IrqSystem.Unused (s : IrqSystem) (a : Addr) : Prop :=
  a ≠ null ∧ a ∉ s.threads.addrs ∧ (∀ t ∈ s.threads.nodes, a ∉ t.2.addrs) ∧ a ∉ s.leaked

instance (s : IrqSystem) : DecidablePred s.Unused := fun _ => inferInstanceAs (Decidable (_ ∧ _ ∧ _ ∧ _))

/-! ## Registration -/

/-- The traversals read a node's successor when they move on to it: a node linked at the tail is still
visited unless the current one is the last. -/
def WorkerPc.concat (node : Addr) : WorkerPc → WorkerPc
  | .visit (p :: q :: todo) => .visit (p :: q :: todo ++ [node])
  | .calling p call (q :: todo) => .calling p call (q :: todo ++ [node])
  | pc => pc

/-- `wasm_interrupt_register`; `node` is what `wasm_interrupt_malloc` returns. The result is the thread
with the new node, or what `get_errno` then returns. -/
def wasmInterruptRegister (th : IrqThread) (irq index arg : UInt32) (node : Option Addr) : Except Int IrqThread :=
  if !th.isIrqEnable then .error (-22)
  else if th.thread.irqList.nodes.any fun p => decide (p.2.status ≠ wasmIrqStatusReleased) && decide (p.2.id = irq) then
    .error (-17)
  else
    match node with
    | none => .error (-12)
    | some node =>
      if h : node ∉ th.thread.irqList.addrs then
        .ok { th with
          thread := { th.thread with irqList := th.thread.irqList.concat node ⟨0, irq, 0, index, arg⟩ h }
          pc := th.pc.concat node
          registered := th.registered + 1
          serial := Function.update th.serial node th.registered }
      else .error (-12)

/-- `wasm_interrupt_unregister`: release the nodes of a line, with a post for each if the worker is
stopped. -/
def wasmInterruptUnregister (th : IrqThread) (irq : UInt32) : IrqThread :=
  if !th.isIrqEnable then th
  else
    { th with
      thread := { th.thread with
        irqList := th.thread.irqList.map fun n => if n.id = irq then { n with status := wasmIrqStatusReleased } else n
        wasmIrqSem :=
          if th.thread.irqStatus = wasmIrqStop then
            th.thread.wasmIrqSem + (th.thread.irqList.nodes.countP fun p => decide (p.2.id = irq))
          else th.thread.wasmIrqSem } }

/-! ## Steps of a thread -/

/-- The thread and the call of `wasm_irq_thread_exit` on it, with the masks of the controller. -/
def IrqThread.shutdown (th : IrqThread) (masked : List UInt32) : Shutdown :=
  ⟨⟨th.thread, th.pc, masked⟩, th.ptIrq, th.exitPc⟩

/-- The node that a step of the bridge frees: the sweep's, when it visits a released node. -/
def sweeps (s : IrqState) : Action → Option Addr
  | .worker =>
    match s.pc with
    | .visit (p :: _) =>
      (s.thread.irqList.lookup p).bind fun n => if n.status = wasmIrqStatusReleased then some p else none
    | _ => none
  | _ => none

/-- The node that a step of the thread frees. -/
def IrqThread.sweeps (th : IrqThread) : ShutdownAction → Option Addr
  | .bridge a => Irq.sweeps ⟨th.thread, th.pc, []⟩ a
  | .exit => none

/-- The thread after a step. -/
def IrqThread.after (th : IrqThread) (a : ShutdownAction) (u : Shutdown) : IrqThread :=
  { th with
    thread := u.irq.thread
    pc := u.irq.pc
    exitPc := u.exitPc
    freed := (th.sweeps a).toList.map th.serial ++ th.freed }

/-- A step of the thread at `t`. -/
def IrqSystem.bridge (s : IrqSystem) (t : Addr) (a : ShutdownAction) : Option IrqSystem :=
  (s.threads.lookup t).bind fun th =>
    (shutdownStep (th.shutdown s.masked) a).map fun u =>
      { s with threads := s.threads.modify t fun th => th.after a u, masked := u.irq.masked }

/-! ## Steps of the system -/

/-- The thread of a `wasm_irq_thread_create` that succeeds. -/
def wasmIrqThreadCreate (ptIrq : Int32) (execEnv : Addr) : IrqThread where
  thread := ⟨false, execEnv, ⟨[], List.nodup_nil⟩, wasmIrqStop, 0⟩
  ptIrq := ptIrq
  isIrqEnable := true
  pc := .start
  exitPc := .testPtIrq
  registered := 0
  serial := fun _ => 0
  freed := []

/-- `irq_initialize_wrapper` that gets memory and a worker thread; a call that does not frees what it has
and changes nothing. `pthread_create` stores the id of a thread, which is not negative. -/
def IrqSystem.irqInitializeWrapper (s : IrqSystem) (env t : Addr) (ptIrq : Int32) (execEnv : Addr) : Option IrqSystem :=
  if h : s.Unused t ∧ 0 ≤ ptIrq then
    some { s with
      threads := s.threads.concat t (wasmIrqThreadCreate ptIrq execEnv) h.1.2.1
      userData := Function.update s.userData env t }
  else none

/-- `irq_attach_wrapper`; `attached` says whether `irq_attach` installs the vector. A call that registers
no node changes nothing. -/
def IrqSystem.irqAttachWrapper (s : IrqSystem) (env : Addr) (irq index arg : UInt32) (node : Option Addr)
    (attached : Bool) : Option IrqSystem :=
  (s.threads.lookup (s.userData env)).bind fun th =>
    match node, wasmInterruptRegister th irq index arg node with
    | some node, .ok th' =>
      if s.Unused node then
        some { s with
          threads := s.threads.modify (s.userData env) fun _ => th'
          vectors := if attached then (irq, node) :: s.vectors.filter (fun v => decide (v.1 ≠ irq)) else s.vectors }
      else none
    | _, _ => some s

/-- The next step of `irq_uninitialize_wrapper`; when `wasm_irq_thread_exit` returns, the thread is
freed. -/
def IrqSystem.irqUninitializeWrapper (s : IrqSystem) (env : Addr) : Option IrqSystem :=
  (s.threads.lookup (s.userData env)).bind fun th =>
    (s.bridge (s.userData env) .exit).map fun u =>
      if (u.threads.lookup (s.userData env)).all fun th => decide (th.exitPc = .returned) then
        { u with
          threads := u.threads.erase (s.userData env)
          leaked := th.addrs ++ u.leaked
          ended := (th.registered, th.freed) :: u.ended }
      else u

/-- The interrupt of a line whose vector is installed; its handler reads the node and its thread. -/
def IrqSystem.interrupt (s : IrqSystem) (irq : UInt32) : Option IrqSystem :=
  (s.vectors.find? fun v => decide (v.1 = irq)).bind fun v =>
    (s.threads.nodes.find? fun t => decide (v.2 ∈ t.2.addrs)).bind fun t => s.bridge t.1 (.bridge (.interrupt v.2))

inductive IrqAction where
  | irqInitializeWrapper (env thread : Addr) (ptIrq : Int32) (execEnv : Addr)
  | irqAttachWrapper (env : Addr) (irq index arg : UInt32) (node : Option Addr) (attached : Bool)
  /-- `wasm_interrupt_unregister` on a thread -/
  | unregister (thread : Addr) (irq : UInt32)
  | irqUninitializeWrapper (env : Addr)
  | interrupt (irq : UInt32)
  | irqEnable (irq : UInt32)
  | irqDisable (irq : UInt32)
  /-- the worker's start, the return of a wasm handler, and the other steps of the worker of a thread -/
  | initThreadEnv (thread : Addr) (ok : Bool)
  | callReturn (thread : Addr) (result : Option (Option UInt32))
  | worker (thread : Addr)
  deriving DecidableEq, Repr

def irqStep (s : IrqSystem) : IrqAction → Option IrqSystem
  | .irqInitializeWrapper env t ptIrq execEnv => s.irqInitializeWrapper env t ptIrq execEnv
  | .irqAttachWrapper env irq index arg node attached => s.irqAttachWrapper env irq index arg node attached
  | .unregister t irq =>
    (s.threads.lookup t).map fun _ =>
      { s with threads := s.threads.modify t fun th => wasmInterruptUnregister th irq }
  | .irqUninitializeWrapper env => s.irqUninitializeWrapper env
  | .interrupt irq => s.interrupt irq
  | .irqEnable irq => some { s with masked := s.masked.filter (· ≠ irq) }
  | .irqDisable irq => some { s with masked := irq :: s.masked }
  | .initThreadEnv t ok => s.bridge t (.bridge (.initThreadEnv ok))
  | .callReturn t result => s.bridge t (.bridge (.callReturn result))
  | .worker t => s.bridge t (.bridge .worker)

/-! ## Definitions -/

/-- Each installed vector holds a node of an allocated thread, and each node registered on a thread that
has been uninitialised was freed once. -/
structure VectorsSound (s : IrqSystem) : Prop where
  vectors : ∀ v ∈ s.vectors, ∃ t ∈ s.threads.nodes, v.2 ∈ t.2.addrs
  ended : ∀ e ∈ s.ended, ∀ k < e.1, e.2.count k = 1

/-- A sweep frees a node that no vector holds any more, and the worker that a shutdown joins has swept
every node. -/
def KeepsVectors (s : IrqSystem) : IrqAction → Prop
  | .worker t => ∀ th ∈ s.threads.lookup t, ∀ p ∈ th.sweeps (.bridge .worker), ∀ v ∈ s.vectors, v.2 ≠ p
  | .irqUninitializeWrapper env =>
    ∀ th ∈ s.threads.lookup (s.userData env), th.exitPc = .join → th.pc = .exited → th.addrs = []
  | _ => True

instance (s : IrqSystem) : DecidablePred (KeepsVectors s)
  | .worker _ =>
    have (p : Addr) : Decidable (∀ v ∈ s.vectors, v.2 ≠ p) := List.decidableBAll _ _
    have (th : IrqThread) : Decidable (∀ p ∈ th.sweeps (.bridge .worker), ∀ v ∈ s.vectors, v.2 ≠ p) :=
      Option.decidableForallMem _
    Option.decidableForallMem _
  | .irqUninitializeWrapper _ => Option.decidableForallMem _
  | .irqInitializeWrapper .. | .irqAttachWrapper .. | .unregister .. | .interrupt _ | .irqEnable _ | .irqDisable _
  | .initThreadEnv .. | .callReturn .. => isTrue trivial

/-! ## The nodes of a thread -/

/-- A step keeps the nodes in their list, apart from the one it frees. -/
theorem addrs_step {s t : IrqState} {a : Action} (h : step s a = some t) :
    t.thread.irqList.addrs = s.thread.irqList.addrs.filter fun q => decide (sweeps s a ≠ some q) := by
  cases a with
  | interrupt p =>
    obtain ⟨n, -, -, rfl⟩ := step_interrupt h
    unfold wasmIrqHander
    simp only
    split_ifs <;> simp [sweeps]
  | irqEnable irq => cases h; simp [sweeps]
  | irqDisable irq => cases h; simp [sweeps]
  | initThreadEnv ok =>
    obtain ⟨-, rfl⟩ := step_initThreadEnv h
    simp [sweeps]
  | callReturn result =>
    obtain ⟨p, call, todo, -, rfl⟩ := step_callReturn h
    cases result <;> simp [callReturn, sweeps]
  | worker =>
    rcases workerStep_cases h with ⟨p, todo, n, hpc, hn, rfl⟩ | ⟨hlist, hvisit, -⟩
    · unfold visitNode
      split_ifs with hrel hrefs
      · simp only [sweeps, hpc, hn, Option.bind_some, if_pos hrel, NodeList.addrs_erase]
        exact List.filter_congr fun q _ => decide_eq_decide.2 (by simp [eq_comm])
      · simp [sweeps, hpc, hn, hrel]
      · simp [sweeps, hpc, hn, hrel]
    · have hnone : sweeps s .worker = none := by simp only [sweeps]
      simp [hlist, hnone]

/-- The bookkeeping of the nodes of a thread. -/
structure Tracked (th : IrqThread) : Prop where
  lt : ∀ p ∈ th.addrs, th.serial p < th.registered
  inj : ∀ p ∈ th.addrs, ∀ q ∈ th.addrs, th.serial p = th.serial q → p = q
  live : ∀ p ∈ th.addrs, th.serial p ∉ th.freed
  freed : ∀ k ∈ th.freed, k < th.registered
  all : ∀ k < th.registered, k ∈ th.freed ∨ ∃ p ∈ th.addrs, th.serial p = k
  once : th.freed.Nodup

theorem sweeps_mem {th : IrqThread} {a : ShutdownAction} {p : Addr} (h : th.sweeps a = some p) : p ∈ th.addrs := by
  cases a with
  | exit => cases h
  | bridge a =>
    cases a <;> simp only [IrqThread.sweeps, Irq.sweeps] at h <;> try cases h
    split at h
    · obtain ⟨n, hn, h⟩ := Option.bind_eq_some_iff.1 h
      split_ifs at h
      cases h
      exact NodeList.lookup_mem_addrs hn
    · cases h

theorem tracked_after {th : IrqThread} {a : ShutdownAction} {u : Shutdown} (hi : Tracked th)
    (h : u.irq.thread.irqList.addrs = th.addrs.filter fun q => decide (th.sweeps a ≠ some q)) :
    Tracked (th.after a u) := by
  have haddrs : (th.after a u).addrs = th.addrs.filter fun q => decide (th.sweeps a ≠ some q) := h
  have hmem : ∀ q, q ∈ (th.after a u).addrs ↔ q ∈ th.addrs ∧ th.sweeps a ≠ some q := fun q => by
    rw [haddrs, List.mem_filter, decide_eq_true_eq]
  have hfreed : ∀ k, k ∈ (th.after a u).freed ↔ (∃ p, th.sweeps a = some p ∧ th.serial p = k) ∨ k ∈ th.freed :=
    fun k => by simp [IrqThread.after]
  constructor
  · exact fun p hp => hi.lt p ((hmem p).1 hp).1
  · exact fun p hp q hq => hi.inj p ((hmem p).1 hp).1 q ((hmem q).1 hq).1
  · intro p hp hf
    obtain ⟨hp, hne⟩ := (hmem p).1 hp
    rcases (hfreed _).1 hf with ⟨q, hq, he⟩ | hf
    · exact hne (by rw [hq, hi.inj q (sweeps_mem hq) p hp he])
    · exact hi.live p hp hf
  · intro k hk
    rcases (hfreed k).1 hk with ⟨p, hp, rfl⟩ | hk
    · exact hi.lt p (sweeps_mem hp)
    · exact hi.freed k hk
  · intro k hk
    rcases hi.all k hk with hf | ⟨p, hp, rfl⟩
    · exact .inl ((hfreed k).2 (.inr hf))
    · by_cases hs : th.sweeps a = some p
      · exact .inl ((hfreed _).2 (.inl ⟨p, hs, rfl⟩))
      · exact .inr ⟨p, (hmem p).2 ⟨hp, hs⟩, rfl⟩
  · show ((th.sweeps a).toList.map th.serial ++ th.freed).Nodup
    cases hs : th.sweeps a with
    | none => exact hi.once
    | some p => exact List.nodup_cons.2 ⟨hi.live p (sweeps_mem hs), hi.once⟩

/-- A registration that succeeds adds an unreleased node under the next serial number. -/
theorem wasmInterruptRegister_ok {th th' : IrqThread} {irq index arg : UInt32} {node : Addr}
    (h : wasmInterruptRegister th irq index arg (some node) = .ok th') :
    node ∉ th.addrs ∧ th'.addrs = th.addrs ++ [node] ∧ th'.registered = th.registered + 1 ∧
      th'.serial = Function.update th.serial node th.registered ∧ th'.freed = th.freed ∧
      th'.ptIrq = th.ptIrq ∧ th'.exitPc = th.exitPc := by
  unfold wasmInterruptRegister at h
  split_ifs at h
  simp only at h
  split_ifs at h with hn
  cases h
  exact ⟨hn, NodeList.addrs_concat _ _ _ hn, rfl, rfl, rfl, rfl, rfl⟩

theorem tracked_register {th th' : IrqThread} {irq index arg : UInt32} {node : Addr} (hi : Tracked th)
    (h : wasmInterruptRegister th irq index arg (some node) = .ok th') : Tracked th' := by
  obtain ⟨hn, haddrs, hreg, hserial, hfreed, -, -⟩ := wasmInterruptRegister_ok h
  have hmem : ∀ q, q ∈ th'.addrs ↔ q ∈ th.addrs ∨ q = node := fun q => by simp [haddrs]
  have hself : th'.serial node = th.registered := by rw [hserial, Function.update_self]
  have hold : ∀ q ∈ th.addrs, th'.serial q = th.serial q := by
    intro q hq
    have hne : q ≠ node := by
      rintro rfl
      exact hn hq
    rw [hserial, Function.update_of_ne hne]
  constructor
  · intro p hp
    rw [hreg]
    rcases (hmem p).1 hp with hp | rfl
    · rw [hold p hp]
      exact Nat.lt_succ_of_lt (hi.lt p hp)
    · rw [hself]
      exact Nat.lt_succ_self _
  · intro p hp q hq he
    rcases (hmem p).1 hp with hp | rfl <;> rcases (hmem q).1 hq with hq | rfl
    · rw [hold p hp, hold q hq] at he
      exact hi.inj p hp q hq he
    · rw [hold p hp, hself] at he
      exact absurd he (Nat.ne_of_lt (hi.lt p hp))
    · rw [hold q hq, hself] at he
      exact absurd he.symm (Nat.ne_of_lt (hi.lt q hq))
    · rfl
  · intro p hp hf
    rw [hfreed] at hf
    rcases (hmem p).1 hp with hp | rfl
    · rw [hold p hp] at hf
      exact hi.live p hp hf
    · rw [hself] at hf
      exact absurd (hi.freed _ hf) (Nat.lt_irrefl _)
  · intro k hk
    rw [hfreed] at hk
    rw [hreg]
    exact Nat.lt_succ_of_lt (hi.freed k hk)
  · intro k hk
    rw [hreg] at hk
    rcases Nat.lt_succ_iff_lt_or_eq.1 hk with hk | rfl
    · rcases hi.all k hk with hf | ⟨p, hp, rfl⟩
      · exact .inl (by rwa [hfreed])
      · exact .inr ⟨p, (hmem p).2 (.inl hp), hold p hp⟩
    · exact .inr ⟨node, (hmem node).2 (.inr rfl), hself⟩
  · rw [hfreed]
    exact hi.once

/-- Releasing the nodes of a line moves none. -/
theorem wasmInterruptUnregister_eq (th : IrqThread) (irq : UInt32) :
    (wasmInterruptUnregister th irq).addrs = th.addrs ∧
      (wasmInterruptUnregister th irq).registered = th.registered ∧
      (wasmInterruptUnregister th irq).serial = th.serial ∧ (wasmInterruptUnregister th irq).freed = th.freed ∧
      (wasmInterruptUnregister th irq).ptIrq = th.ptIrq ∧ (wasmInterruptUnregister th irq).exitPc = th.exitPc := by
  unfold wasmInterruptUnregister
  split_ifs
  · exact ⟨rfl, rfl, rfl, rfl, rfl, rfl⟩
  · exact ⟨NodeList.addrs_map _ _, rfl, rfl, rfl, rfl, rfl⟩
  · exact ⟨NodeList.addrs_map _ _, rfl, rfl, rfl, rfl, rfl⟩

theorem tracked_congr {th th' : IrqThread} (hi : Tracked th) (ha : th'.addrs = th.addrs)
    (hr : th'.registered = th.registered) (hs : th'.serial = th.serial) (hf : th'.freed = th.freed) : Tracked th' := by
  constructor
  · rw [ha, hs, hr]
    exact hi.lt
  · rw [ha, hs]
    exact hi.inj
  · rw [ha, hs, hf]
    exact hi.live
  · rw [hf, hr]
    exact hi.freed
  · rw [ha, hs, hf, hr]
    exact hi.all
  · rw [hf]
    exact hi.once

/-! ## The invariant -/

structure SystemInv (s : IrqSystem) : Prop where
  sound : VectorsSound s
  tracked : ∀ t ∈ s.threads.nodes, Tracked t.2
  apart : ∀ t ∈ s.threads.nodes, ∀ u ∈ s.threads.nodes, ∀ p, p ∈ t.2.addrs → p ∈ u.2.addrs → t = u
  running : ∀ t ∈ s.threads.nodes, 0 ≤ t.2.ptIrq ∧ t.2.exitPc ≠ .returned

theorem systemInv_start : SystemInv .start :=
  ⟨⟨by simp [IrqSystem.start], by simp [IrqSystem.start]⟩, by simp [IrqSystem.start], by simp [IrqSystem.start],
    by simp [IrqSystem.start]⟩

/-- A change of one thread: it keeps its nodes or gets unused ones, and each vector either holds one of
the nodes it has then, or is an older one that held none of its nodes. -/
theorem SystemInv.modify {s : IrqSystem} {t : Addr} {th th' : IrqThread} {f : IrqThread → IrqThread}
    {vectors : List (UInt32 × Addr)} {masked : List UInt32} (hi : SystemInv s) (ht : s.threads.lookup t = some th)
    (hf : f th = th') (htr : Tracked th') (hrun : 0 ≤ th'.ptIrq ∧ th'.exitPc ≠ .returned)
    (hnew : ∀ p ∈ th'.addrs, p ∈ th.addrs ∨ ∀ u ∈ s.threads.nodes, p ∉ u.2.addrs)
    (hvec : ∀ v ∈ vectors, v.2 ∈ th'.addrs ∨ v ∈ s.vectors ∧ v.2 ∉ th.addrs) :
    SystemInv { s with threads := s.threads.modify t f, vectors, masked } := by
  have hmem := NodeList.mem_of_lookup ht
  have hnodes : ∀ q, q ∈ (s.threads.modify t f).nodes ↔ q.1 ≠ t ∧ q ∈ s.threads.nodes ∨ q = (t, th') := by
    intro q
    rw [NodeList.mem_modify]
    refine or_congr_right ⟨?_, ?_⟩
    · rintro ⟨ha, v, hv, he⟩
      rw [← NodeList.lookup_eq_some, ht] at hv
      cases hv
      exact Prod.ext ha (he.trans hf)
    · rintro rfl
      exact ⟨rfl, th, hmem, hf.symm⟩
  -- a node of the changed thread is on no other list
  have hapart : ∀ q, q.1 ≠ t → q ∈ s.threads.nodes → ∀ p, p ∈ q.2.addrs → p ∉ th'.addrs := by
    intro q hq hqm p hp hp'
    rcases hnew p hp' with hp' | hn
    · exact hq (congrArg Prod.fst (hi.apart q hqm _ hmem p hp hp'))
    · exact hn q hqm hp
  refine ⟨⟨fun v hv => ?_, hi.sound.ended⟩, fun q hq => ?_, fun q hq u hu p hp hp' => ?_, fun q hq => ?_⟩
  · rcases hvec v hv with hv | ⟨hv, hn⟩
    · exact ⟨_, (hnodes _).2 (.inr rfl), hv⟩
    · obtain ⟨q, hq, hvq⟩ := hi.sound.vectors v hv
      refine ⟨q, (hnodes q).2 (.inl ⟨fun he => hn ?_, hq⟩), hvq⟩
      have hl := NodeList.lookup_of_mem hq
      rw [he, ht] at hl
      cases hl
      exact hvq
  · rcases (hnodes q).1 hq with ⟨-, hq⟩ | rfl
    · exact hi.tracked q hq
    · exact htr
  · rcases (hnodes q).1 hq with ⟨hqt, hq⟩ | rfl <;> rcases (hnodes u).1 hu with ⟨hut, hu⟩ | rfl
    · exact hi.apart q hq u hu p hp hp'
    · exact absurd hp' (hapart q hqt hq p hp)
    · exact absurd hp (hapart u hut hu p hp')
    · rfl
  · rcases (hnodes q).1 hq with ⟨-, hq⟩ | rfl
    · exact hi.running q hq
    · exact hrun

/-! ## Steps of a thread -/

/-- The shutdown ends when it has joined the worker, or at once when it has no thread; only then it
empties the list. -/
theorem wasmIrqThreadExit_some {s t : Shutdown} (h : wasmIrqThreadExit s = some t) :
    (t.exitPc = .returned ↔ s.exitPc = .join ∧ s.irq.pc = .exited ∨ s.exitPc = .testPtIrq ∧ s.ptIrq < 0) ∧
      (t.exitPc ≠ .returned → t.irq.thread.irqList = s.irq.thread.irqList) := by
  unfold wasmIrqThreadExit at h
  split at h
  case h_1 hpc => cases h; simp [hpc]
  case h_2 hpc => cases h; simp [hpc]
  case h_3 hpc =>
    cases h
    refine ⟨?_, fun _ => rfl⟩
    simp only [hpc]
    split_ifs <;> simp
  case h_4 hpc => cases h; simp [hpc]
  case h_5 hpc =>
    split_ifs at h with hex
    cases h
    simp [hpc, hex]
  case h_6 => cases h

/-- Only the join of a worker that has ended ends the shutdown of a thread with a valid id. -/
theorem exitPc_shutdownStep {th : IrqThread} {masked : List UInt32} {a : ShutdownAction} {u : Shutdown}
    (hrun : 0 ≤ th.ptIrq ∧ th.exitPc ≠ .returned) (h : shutdownStep (th.shutdown masked) a = some u) :
    u.exitPc = .returned ↔ a = .exit ∧ th.exitPc = .join ∧ th.pc = .exited := by
  cases a with
  | bridge a =>
    obtain ⟨irq, hirq, rfl⟩ := Option.map_eq_some_iff.1 h
    exact ⟨fun he => absurd he hrun.2, fun he => by cases he.1⟩
  | exit =>
    have hpos : ¬ th.ptIrq < 0 := Int32.not_lt.2 hrun.1
    rw [(wasmIrqThreadExit_some h).1]
    simp [IrqThread.shutdown, hpos]

/-- A step of a thread that does not end the shutdown frees what it sweeps and moves no other node. -/
theorem addrs_shutdownStep {th : IrqThread} {masked : List UInt32} {a : ShutdownAction} {u : Shutdown}
    (h : shutdownStep (th.shutdown masked) a = some u) (hu : u.exitPc ≠ .returned) :
    u.irq.thread.irqList.addrs = th.addrs.filter fun q => decide (th.sweeps a ≠ some q) := by
  cases a with
  | bridge a =>
    obtain ⟨irq, hirq, rfl⟩ := Option.map_eq_some_iff.1 h
    have hs : Irq.sweeps ⟨th.thread, th.pc, masked⟩ a = th.sweeps (.bridge a) := by cases a <;> rfl
    rw [← hs]
    exact addrs_step hirq
  | exit =>
    have hlist : u.irq.thread.irqList = th.thread.irqList := (wasmIrqThreadExit_some h).2 hu
    rw [hlist]
    simp [IrqThread.sweeps, IrqThread.addrs]

theorem inv_bridge {s u : IrqSystem} {t : Addr} {a : ShutdownAction} (hi : SystemInv s)
    (hok : ∀ th ∈ s.threads.lookup t, ∀ p ∈ th.sweeps a, ∀ v ∈ s.vectors, v.2 ≠ p)
    (hend : ∀ th ∈ s.threads.lookup t, ¬ (a = .exit ∧ th.exitPc = .join ∧ th.pc = .exited))
    (h : s.bridge t a = some u) : SystemInv u := by
  obtain ⟨th, ht, h⟩ := Option.bind_eq_some_iff.1 h
  obtain ⟨w, hw, rfl⟩ := Option.map_eq_some_iff.1 h
  have hmem := NodeList.mem_of_lookup ht
  have hrun := hi.running _ hmem
  have hret : w.exitPc ≠ .returned := fun he => hend th ht ((exitPc_shutdownStep hrun hw).1 he)
  have haddrs := addrs_shutdownStep hw hret
  have hmemAddrs : ∀ q, q ∈ (th.after a w).addrs ↔ q ∈ th.addrs ∧ th.sweeps a ≠ some q := fun q => by
    rw [show (th.after a w).addrs = _ from haddrs, List.mem_filter, decide_eq_true_eq]
  refine hi.modify ht rfl (tracked_after (hi.tracked _ hmem) haddrs) ⟨hrun.1, hret⟩
    (fun p hp => .inl ((hmemAddrs p).1 hp).1) fun v hv => ?_
  by_cases hva : v.2 ∈ th.addrs
  · exact .inl ((hmemAddrs _).2 ⟨hva, fun hs => hok th ht v.2 hs v hv rfl⟩)
  · exact .inr ⟨hv, hva⟩

/-! ## Steps of the system -/

theorem inv_initializeWrapper {s u : IrqSystem} {env t : Addr} {ptIrq : Int32} {execEnv : Addr} (hi : SystemInv s)
    (h : s.irqInitializeWrapper env t ptIrq execEnv = some u) : SystemInv u := by
  unfold IrqSystem.irqInitializeWrapper at h
  split_ifs at h with hun
  cases h
  let th := wasmIrqThreadCreate ptIrq execEnv
  have hnew : Tracked th := by constructor <;> simp [th, wasmIrqThreadCreate, IrqThread.addrs, NodeList.addrs]
  have hnodes : ∀ q, q ∈ (s.threads.concat t th hun.1.2.1).nodes ↔ q ∈ s.threads.nodes ∨ q = (t, th) := by
    simp [NodeList.concat]
  refine ⟨⟨fun v hv => ?_, hi.sound.ended⟩, fun q hq => ?_, fun q hq r hr p hp hp' => ?_, fun q hq => ?_⟩
  · obtain ⟨q, hq, hvq⟩ := hi.sound.vectors v hv
    exact ⟨q, (hnodes q).2 (.inl hq), hvq⟩
  · rcases (hnodes q).1 hq with hq | rfl
    · exact hi.tracked q hq
    · exact hnew
  · -- the new thread has no nodes
    rcases (hnodes q).1 hq with hq | rfl
    · rcases (hnodes r).1 hr with hr | rfl
      · exact hi.apart q hq r hr p hp hp'
      · cases hp'
    · cases hp
  · rcases (hnodes q).1 hq with hq | rfl
    · exact hi.running q hq
    · exact ⟨hun.2, fun he => by cases he⟩

theorem inv_attachWrapper {s u : IrqSystem} {env : Addr} {irq index arg : UInt32} {node : Option Addr} {attached : Bool}
    (hi : SystemInv s) (h : s.irqAttachWrapper env irq index arg node attached = some u) : SystemInv u := by
  obtain ⟨th, ht, h⟩ := Option.bind_eq_some_iff.1 h
  split at h
  case h_2 => cases h; exact hi
  case h_1 node th' _ hreg =>
    rw [Option.ite_none_right_eq_some] at h
    obtain ⟨hun, h⟩ := h
    cases h
    have hmem := NodeList.mem_of_lookup ht
    have hrun := hi.running _ hmem
    obtain ⟨-, haddrs, -, -, -, hpt, hexit⟩ := wasmInterruptRegister_ok hreg
    refine hi.modify ht rfl (tracked_register (hi.tracked _ hmem) hreg)
      (by rw [hpt, hexit]; exact hrun) (fun p hp => ?_) fun v hv => ?_
    · rw [haddrs, List.mem_append, List.mem_singleton] at hp
      rcases hp with hp | rfl
      · exact .inl hp
      · exact .inr hun.2.2.1
    · rw [haddrs, List.mem_append, List.mem_singleton]
      have hold : v ∈ s.vectors → (v.2 ∈ th.addrs ∨ v.2 = node) ∨ v ∈ s.vectors ∧ v.2 ∉ th.addrs := by
        intro hv
        by_cases hva : v.2 ∈ th.addrs
        · exact .inl (.inl hva)
        · exact .inr ⟨hv, hva⟩
      cases attached with
      | false => exact hold hv
      | true =>
        rcases List.mem_cons.1 hv with rfl | hv
        · exact .inl (.inr rfl)
        · exact hold (List.mem_filter.1 hv).1

theorem inv_unregister {s : IrqSystem} {t : Addr} {th : IrqThread} (irq : UInt32) (hi : SystemInv s)
    (ht : s.threads.lookup t = some th) :
    SystemInv { s with threads := s.threads.modify t fun th => wasmInterruptUnregister th irq } := by
  have hmem := NodeList.mem_of_lookup ht
  have hrun := hi.running _ hmem
  obtain ⟨haddrs, hreg, hserial, hfreed, hpt, hexit⟩ := wasmInterruptUnregister_eq th irq
  refine hi.modify ht rfl (tracked_congr (hi.tracked _ hmem) haddrs hreg hserial hfreed)
    (by rw [hpt, hexit]; exact hrun) (fun p hp => .inl (by rwa [haddrs] at hp)) fun v hv => ?_
  rw [haddrs]
  by_cases hva : v.2 ∈ th.addrs
  · exact .inl hva
  · exact .inr ⟨hv, hva⟩

/-- `irq_uninitialize_wrapper` either takes a step of `wasm_irq_thread_exit` that does not return, or
frees the thread whose worker it has joined. -/
theorem uninitialize_cases {s u : IrqSystem} {env : Addr} (hi : SystemInv s)
    (h : s.irqUninitializeWrapper env = some u) :
    ∃ th, s.threads.lookup (s.userData env) = some th ∧
      ((¬ (th.exitPc = .join ∧ th.pc = .exited) ∧ s.bridge (s.userData env) .exit = some u) ∨
        (th.exitPc = .join ∧ th.pc = .exited ∧
          (∀ q, q ∈ u.threads.nodes ↔ q.1 ≠ s.userData env ∧ q ∈ s.threads.nodes) ∧
          u.vectors = s.vectors ∧ u.ended = (th.registered, th.freed) :: s.ended)) := by
  obtain ⟨th, ht, h⟩ := Option.bind_eq_some_iff.1 h
  obtain ⟨w, hw, h⟩ := Option.map_eq_some_iff.1 h
  refine ⟨th, ht, ?_⟩
  have hbridge := hw
  rw [IrqSystem.bridge, ht, Option.bind_some] at hw
  obtain ⟨x, hx, rfl⟩ := Option.map_eq_some_iff.1 hw
  have hl : ({ s with
      threads := s.threads.modify (s.userData env) fun th => th.after .exit x, masked := x.irq.masked } :
        IrqSystem).threads.lookup (s.userData env) = some (th.after .exit x) := NodeList.lookup_modify_self ht
  rw [hl] at h
  have hret := exitPc_shutdownStep (hi.running _ (NodeList.mem_of_lookup ht)) hx
  by_cases hend : th.exitPc = .join ∧ th.pc = .exited
  · have hx' : (th.after .exit x).exitPc = .returned := hret.2 ⟨rfl, hend⟩
    simp only [Option.all_some, hx', decide_true, if_true] at h
    refine .inr ⟨hend.1, hend.2, fun q => ?_, ?_, ?_⟩ <;> subst h
    · rw [NodeList.mem_erase, NodeList.mem_modify]
      constructor
      · rintro ⟨hq, ⟨-, hm⟩ | ⟨he, -⟩⟩
        · exact ⟨hq, hm⟩
        · exact absurd he hq
      · exact fun hq => ⟨hq.1, .inl hq⟩
    · rfl
    · rfl
  · have hx' : (th.after .exit x).exitPc ≠ .returned := fun he => hend (hret.1 he).2
    simp only [Option.all_some, hx', decide_false] at h
    exact .inl ⟨hend, by rw [hbridge, ← h]; rfl⟩

theorem inv_uninitializeWrapper {s u : IrqSystem} {env : Addr} (hi : SystemInv s)
    (hok : KeepsVectors s (.irqUninitializeWrapper env))
    (h : s.irqUninitializeWrapper env = some u) : SystemInv u := by
  obtain ⟨th, ht, ⟨hend, hb⟩ | ⟨hj, hx, hnodes, hvec, hended⟩⟩ := uninitialize_cases hi h
  · refine inv_bridge hi (fun th _ p hp => by cases hp) (fun th' ht' hend' => ?_) hb
    rw [ht] at ht'
    cases ht'
    exact hend hend'.2
  · have hmem := NodeList.mem_of_lookup ht
    have hnil : th.addrs = [] := hok th ht hj hx
    refine ⟨⟨fun v hv => ?_, fun e he k hk => ?_⟩, fun q hq => hi.tracked q ((hnodes q).1 hq).2,
      fun q hq r hr p hp hp' => hi.apart q ((hnodes q).1 hq).2 r ((hnodes r).1 hr).2 p hp hp',
      fun q hq => hi.running q ((hnodes q).1 hq).2⟩
    · rw [hvec] at hv
      obtain ⟨q, hq, hvq⟩ := hi.sound.vectors v hv
      refine ⟨q, (hnodes q).2 ⟨fun he => ?_, hq⟩, hvq⟩
      have hl := NodeList.lookup_of_mem hq
      rw [he, ht] at hl
      cases hl
      rw [hnil] at hvq
      cases hvq
    · rw [hended] at he
      rcases List.mem_cons.1 he with rfl | he
      · -- no node is left, so every serial number is among the freed ones
        have htr := hi.tracked _ hmem
        rcases htr.all k hk with hf | ⟨p, hp, -⟩
        · exact List.count_eq_one_of_mem htr.once hf
        · rw [hnil] at hp
          cases hp
      · exact hi.sound.ended e he k hk

theorem systemInv_step {s u : IrqSystem} {a : IrqAction} (hi : SystemInv s) (hok : KeepsVectors s a)
    (h : irqStep s a = some u) : SystemInv u := by
  cases a with
  | irqInitializeWrapper env t ptIrq execEnv => exact inv_initializeWrapper hi h
  | irqAttachWrapper env irq index arg node attached => exact inv_attachWrapper hi h
  | unregister t irq =>
    obtain ⟨th, ht, rfl⟩ := Option.map_eq_some_iff.1 h
    exact inv_unregister irq hi ht
  | irqUninitializeWrapper env => exact inv_uninitializeWrapper hi hok h
  | interrupt irq =>
    obtain ⟨v, -, h⟩ := Option.bind_eq_some_iff.1 h
    obtain ⟨t, -, h⟩ := Option.bind_eq_some_iff.1 h
    exact inv_bridge hi (fun th _ p hp => by cases hp) (fun th _ he => by cases he.1) h
  | irqEnable irq => cases h; exact ⟨⟨hi.sound.vectors, hi.sound.ended⟩, hi.tracked, hi.apart, hi.running⟩
  | irqDisable irq => cases h; exact ⟨⟨hi.sound.vectors, hi.sound.ended⟩, hi.tracked, hi.apart, hi.running⟩
  | initThreadEnv t ok => exact inv_bridge hi (fun th _ p hp => by cases hp) (fun th _ he => by cases he.1) h
  | callReturn t result => exact inv_bridge hi (fun th _ p hp => by cases hp) (fun th _ he => by cases he.1) h
  | worker t => exact inv_bridge hi hok (fun th _ he => by cases he.1) h

/-! ## Vectors along a run -/

/-- A sweep of a node that a vector holds leaves the vector dangling. -/
theorem not_sound_sweep {s u : IrqSystem} {t p : Addr} {th : IrqThread} {v : UInt32 × Addr} (hi : SystemInv s)
    (ht : s.threads.lookup t = some th) (hp : th.sweeps (.bridge .worker) = some p) (hv : v ∈ s.vectors)
    (hvp : v.2 = p) (h : s.bridge t (.bridge .worker) = some u) : ¬ VectorsSound u := by
  rw [IrqSystem.bridge, ht, Option.bind_some] at h
  obtain ⟨w, hw, rfl⟩ := Option.map_eq_some_iff.1 h
  have hmem := NodeList.mem_of_lookup ht
  have hret : w.exitPc ≠ .returned := fun he => by
    cases ((exitPc_shutdownStep (hi.running _ hmem) hw).1 he).1
  have haddrs := addrs_shutdownStep hw hret
  intro hs
  obtain ⟨q, hq, hvq⟩ := hs.vectors v hv
  rw [hvp] at hvq
  rcases NodeList.mem_modify.1 hq with ⟨hqt, hq⟩ | ⟨-, th', hth', he⟩
  · exact hqt (congrArg Prod.fst (hi.apart q hq _ hmem p hvq (sweeps_mem hp)))
  · rw [← NodeList.lookup_eq_some, ht] at hth'
    cases hth'
    rw [he, show (th.after _ w).addrs = _ from haddrs, List.mem_filter, hp] at hvq
    simp at hvq

/-- A shutdown that joins a worker with nodes left frees none of them. -/
theorem not_sound_uninitialize {s u : IrqSystem} {env : Addr} {th : IrqThread} (hi : SystemInv s)
    (ht : s.threads.lookup (s.userData env) = some th) (hj : th.exitPc = .join) (hx : th.pc = .exited)
    (hne : th.addrs ≠ []) (h : s.irqUninitializeWrapper env = some u) : ¬ VectorsSound u := by
  obtain ⟨th', ht', ⟨hend, -⟩ | ⟨-, -, -, -, hended⟩⟩ := uninitialize_cases hi h <;> rw [ht] at ht' <;> cases ht'
  · exact absurd ⟨hj, hx⟩ hend
  · intro hs
    obtain ⟨p, hp⟩ := List.exists_mem_of_ne_nil _ hne
    have htr := hi.tracked _ (NodeList.mem_of_lookup ht)
    have hone := hs.ended (th.registered, th.freed) (by rw [hended]; exact List.mem_cons_self) _ (htr.lt p hp)
    rw [List.count_eq_zero_of_not_mem (htr.live p hp)] at hone
    cases hone

theorem not_sound_step {s u : IrqSystem} {a : IrqAction} (hi : SystemInv s) (hok : ¬ KeepsVectors s a)
    (h : irqStep s a = some u) : ¬ VectorsSound u := by
  cases a with
  | worker t =>
    simp only [KeepsVectors, not_forall, not_not] at hok
    obtain ⟨th, ht, p, hp, v, hv, hvp⟩ := hok
    exact not_sound_sweep hi ht hp hv hvp h
  | irqUninitializeWrapper env =>
    simp only [KeepsVectors, not_forall] at hok
    obtain ⟨th, ht, hj, hx, hne⟩ := hok
    exact not_sound_uninitialize hi ht hj hx hne h
  | _ => exact absurd trivial hok

/-- Vectors stay sound along a run exactly when no sweep frees a node that a vector holds and no shutdown
joins a worker with nodes left. -/
theorem vectorsSound_iff_keeps {s : IrqSystem} {as : List IrqAction} (h : exec irqStep .start as = some s) :
    Along irqStep VectorsSound .start as ↔ Meets irqStep KeepsVectors .start as :=
  along_iff_meets (fun _ hi => hi.sound) (fun _ _ _ hi hok ht => systemInv_step hi hok ht)
    (fun _ _ _ hi hok ht => not_sound_step hi hok ht) systemInv_start h

/-- A line is attached by one thread, released, and attached by another, before the first sweeps its node
and is shut down. -/
def takenOver : List IrqAction :=
  [.irqInitializeWrapper 1 16 7 101, .irqInitializeWrapper 2 32 8 102, .initThreadEnv 16 true,
    .irqAttachWrapper 1 5 3 7 (some 48) true, .unregister 16 5, .irqAttachWrapper 2 5 4 8 (some 64) true,
    .worker 16, .worker 16, .worker 16, .worker 16, .interrupt 5, .irqUninitializeWrapper 1,
    .irqUninitializeWrapper 1, .worker 16, .worker 16, .irqUninitializeWrapper 1, .irqUninitializeWrapper 1,
    .irqUninitializeWrapper 1]

theorem vectorsSound_takenOver :
    (∃ s, exec irqStep .start takenOver = some s ∧ s.ended = [(1, [0])]) ∧
      Along irqStep VectorsSound .start takenOver := by
  have hm : Meets irqStep KeepsVectors .start takenOver := by decide
  exact ⟨⟨_, rfl, rfl⟩, (vectorsSound_iff_keeps rfl).2 hm⟩

/-- A thread attaches a line and is shut down. -/
def attachedAtShutdown : List IrqAction :=
  [.irqInitializeWrapper 1 16 7 101, .initThreadEnv 16 true, .irqAttachWrapper 1 5 3 7 (some 48) true,
    .irqUninitializeWrapper 1, .irqUninitializeWrapper 1, .irqUninitializeWrapper 1, .irqUninitializeWrapper 1,
    .worker 16, .irqUninitializeWrapper 1]

theorem vector_dangles :
    ¬ ∀ (s : IrqSystem) (as : List IrqAction), exec irqStep .start as = some s → VectorsSound s := by
  intro h
  obtain ⟨q, hq, -⟩ := (h _ attachedAtShutdown rfl).vectors (5, 48) (by decide)
  cases hq

end VelaWasm.Irq
