/-
The accounts of the interrupts. For each node they count the times its handler has fired and the calls of its
wasm handler that have completed; `refs` is the difference in every state, with interrupts before, during and
after the calls, nodes registered and released meanwhile, and the thread's exit. So no call is made without an
outstanding interrupt, and a rescan that finds nothing finds every interrupt served.
-/
import VelaWasm.Irq.Vectors
import VelaWasm.Irq.WakeUp

namespace VelaWasm.Irq

open VelaWasm.Run

/-! ## Steps -/

/-- A thread with, for each listed node, the interrupts that have fired and the calls that have completed. -/
structure Accounting where
  th : IrqThread
  masked : List UInt32
  fired : Addr → ℕ
  completed : Addr → ℕ

/-- The node whose handler a step fires. -/
def fires : Action → Option Addr
  | .interrupt p => some p
  | _ => none

/-- The node whose wasm handler call a step completes, at the decrement of its `refs`. -/
def completes (pc : WorkerPc) : Action → Option Addr
  | .callReturn (some _) =>
    match pc with
    | .calling p _ _ => some p
    | _ => none
  | _ => none

/-- One more at the given node. -/
def bump (node : Option Addr) (counts : Addr → ℕ) (p : Addr) : ℕ :=
  if node = some p then counts p + 1 else counts p

inductive AccountingAction where
  /-- an interrupt, a mask or a step of the worker -/
  | bridge (a : Action)
  /-- a statement of `wasm_irq_thread_exit` before its join, which is after the last pass of the worker -/
  | exit
  /-- `wasm_interrupt_register` -/
  | register (irq index arg : UInt32) (node : Addr)
  /-- `wasm_interrupt_unregister` -/
  | unregister (irq : UInt32)
  deriving DecidableEq, Repr

def accountingStep (s : Accounting) : AccountingAction → Option Accounting
  | .bridge a => (step ⟨s.th.thread, s.th.pc, s.masked⟩ a).map fun u =>
      ⟨s.th.after (.bridge a) ⟨u, s.th.ptIrq, s.th.exitPc⟩, u.masked, bump (fires a) s.fired,
        bump (completes s.th.pc a) s.completed⟩
  | .exit =>
    if s.th.exitPc = .join then none
    else (wasmIrqThreadExit (s.th.shutdown s.masked)).map fun u => { s with th := s.th.after .exit u }
  | .register irq index arg node =>
    match wasmInterruptRegister s.th irq index arg (some node) with
    | .ok th => some ⟨th, s.masked, Function.update s.fired node 0, Function.update s.completed node 0⟩
    | .error _ => some s
  | .unregister irq => some { s with th := wasmInterruptUnregister s.th irq }

/-- A thread that has just been created. -/
def Accounting.start (ptIrq : Int32) (execEnv : Addr) : Accounting :=
  ⟨wasmIrqThreadCreate ptIrq execEnv, [], fun _ => 0, fun _ => 0⟩

/-! ## The property -/

/-- The nodes that are not yet freed. -/
abbrev Accounting.nodes (s : Accounting) : List (Addr × WasmIrq) := s.th.thread.irqList.nodes

structure Exact (s : Accounting) : Prop where
  refs : ∀ q ∈ s.nodes, q.2.refs = (s.fired q.1 : Int) - s.completed q.1
  calling : ∀ p call todo, s.th.pc = .calling p call todo → s.completed p < s.fired p
  served : s.th.pc = .rescan → rescan s.th.thread.irqList = false → ∀ q ∈ s.nodes, s.completed q.1 = s.fired q.1

/-- An interrupt fires with fewer than 2^31 outstanding, itself included. -/
def Bounded (s : Accounting) : AccountingAction → Prop
  | .bridge a => ∀ p ∈ fires a, (s.fired p : Int) - s.completed p < intMax
  | .exit | .register .. | .unregister _ => True

instance (s : Accounting) : DecidablePred (Bounded s)
  | .bridge _ => Option.decidableForallMem _
  | .exit | .register .. | .unregister _ => isTrue trivial

/-! ## The invariant -/

structure Booked (s : Accounting) : Prop where
  refs : ∀ q ∈ s.nodes, q.2.refs = (s.fired q.1 : Int) - s.completed q.1 ∧ 0 ≤ q.2.refs ∧ q.2.refs ≤ intMax
  calling : ∀ p call todo, s.th.pc = .calling p call todo → ∃ n, (p, n) ∈ s.nodes ∧ 0 < n.refs

theorem booked_start (ptIrq : Int32) (execEnv : Addr) : Booked (.start ptIrq execEnv) :=
  ⟨fun _ h => (by cases h), fun _ _ _ h => by cases h⟩

theorem exact_of_booked {s : Accounting} (hi : Booked s) : Exact s := by
  refine ⟨fun q hq => (hi.refs q hq).1, fun p call todo h => ?_, fun _ hr q hq => ?_⟩
  · obtain ⟨n, hn, hpos⟩ := hi.calling p call todo h
    have hrefs := (hi.refs _ hn).1
    simp only at hrefs
    omega
  · obtain ⟨hrefs, hle, -⟩ := hi.refs q hq
    have hnot : ¬ 0 < q.2.refs := by
      have := List.any_eq_false.1 hr q hq
      simpa using this
    omega

/-! ## Steps of the thread -/

/-- The node whose wasm handler a step calls. -/
def calls (s : IrqState) : Action → Option Addr
  | .worker =>
    match s.pc with
    | .visit (p :: _) =>
      (s.thread.irqList.lookup p).bind fun n =>
        if n.status ≠ wasmIrqStatusReleased ∧ 0 < n.refs then some p else none
    | _ => none
  | _ => none

/-- The value that a step stores in the argument array of the node at `q`: what its wasm handler returns. -/
def stores (pc : WorkerPc) (a : Action) (q : Addr) : Option UInt32 :=
  match a with
  | .callReturn (some ret) =>
    match pc with
    | .calling p _ _ => if p = q then ret else none
    | _ => none
  | _ => none

/-- The nodes after a step of the bridge are nodes of before, with their references counted and the value
that the step stores. -/
theorem mem_step {s t : IrqState} {a : Action} (h : step s a = some t) {q : Addr × WasmIrq}
    (hq : q ∈ t.thread.irqList.nodes) : ∃ n, (q.1, n) ∈ s.thread.irqList.nodes ∧
      q.2.refs = (if fires a = some q.1 then addInt n.refs 1
        else if completes s.pc a = some q.1 then addInt n.refs (-1) else n.refs) ∧
      q.2.arg = (stores s.pc a q.1).getD n.arg := by
  cases a with
  | interrupt p =>
    obtain ⟨n, hn, -, rfl⟩ := step_interrupt h
    rcases mem_wasmIrqHander hn hq with ⟨hne, hq⟩ | ⟨hp, he⟩
    · exact ⟨q.2, hq, by simp [fires, completes, stores, Ne.symm hne]⟩
    · exact ⟨n, hp ▸ NodeList.mem_of_lookup hn, by simp [fires, stores, he, hp]⟩
  | irqEnable irq | irqDisable irq =>
    cases h
    exact ⟨q.2, hq, by simp [fires, completes, stores]⟩
  | initThreadEnv ok =>
    obtain ⟨-, rfl⟩ := step_initThreadEnv h
    exact ⟨q.2, hq, by simp [fires, completes, stores]⟩
  | callReturn result =>
    obtain ⟨p, call, todo, hpc, rfl⟩ := step_callReturn h
    cases result with
    | none => exact ⟨q.2, hq, by simp [fires, completes, stores]⟩
    | some ret =>
      rcases NodeList.mem_modify.1 hq with ⟨hne, hq⟩ | ⟨hp, n, hn, he⟩
      · exact ⟨q.2, hq, by simp [fires, completes, stores, hpc, Ne.symm hne]⟩
      · exact ⟨n, hp ▸ hn, by simp [fires, completes, stores, hpc, hp, he]⟩
  | worker =>
    have hkeep : q ∈ s.thread.irqList.nodes := by
      rcases workerStep_cases h with ⟨p, todo, n, hpc, hn, rfl⟩ | ⟨hlist, -⟩
      · unfold visitNode at hq
        split_ifs at hq
        · exact (NodeList.mem_erase.1 hq).2
        · exact hq
        · exact hq
      · rwa [hlist] at hq
    exact ⟨q.2, hkeep, by simp [fires, completes, stores]⟩

/-- A step that calls a wasm handler gives it the node's `index` and argument array. -/
theorem calls_step {s t : IrqState} {a : Action} {p : Addr} (hc : calls s a = some p) (h : step s a = some t) :
    ∃ n todo, (p, n) ∈ s.thread.irqList.nodes ∧ 0 < n.refs ∧
      t = { s with pc := .calling p ⟨s.thread.execEnv, n.index, [n.arg]⟩ todo } := by
  cases a with
  | worker =>
    simp only [calls] at hc
    split at hc
    · rename_i r todo hpc
      obtain ⟨n, hn, hc⟩ := Option.bind_eq_some_iff.1 hc
      split_ifs at hc with hlive
      cases hc
      simp only [step, workerStep, hpc, hn, Option.map_some] at h
      cases h
      refine ⟨n, todo, NodeList.mem_of_lookup hn, hlive.2, ?_⟩
      rw [visitNode, if_neg hlive.1, if_pos hlive.2]
    · cases hc
  | _ => cases hc

/-- A step that leads into a wasm handler call leads from that call on, or makes the call. -/
theorem calling_step {s t : IrqState} {a : Action} (h : step s a = some t) {p : Addr} {call : WasmCall}
    {todo : List Addr} (hpc : t.pc = .calling p call todo) :
    (s.pc = .calling p call todo ∧ sweeps s a = none ∧ completes s.pc a = none) ∨ calls s a = some p := by
  cases a with
  | interrupt r =>
    obtain ⟨n, -, -, rfl⟩ := step_interrupt h
    rw [(wasmIrqHander_pc s r n).1] at hpc
    exact .inl ⟨hpc, rfl, rfl⟩
  | irqEnable irq | irqDisable irq =>
    cases h
    exact .inl ⟨hpc, rfl, rfl⟩
  | initThreadEnv ok =>
    obtain ⟨-, rfl⟩ := step_initThreadEnv h
    cases ok <;> cases hpc
  | callReturn result =>
    obtain ⟨r, call', todo', -, rfl⟩ := step_callReturn h
    cases result <;> cases hpc
  | worker =>
    rcases workerStep_cases h with ⟨r, todo', n, hvisit, hn, rfl⟩ | ⟨-, -, hcall⟩
    · unfold visitNode at hpc
      split_ifs at hpc with hrel hrefs
      cases hpc
      right
      simp [calls, hvisit, hn, hrel, hrefs]
    · exact absurd hpc (hcall p call todo)

/-- `wasm_irq_thread_exit` changes no node before it has joined the worker. -/
theorem exit_nodes {s u : Shutdown} (h : wasmIrqThreadExit s = some u) (hj : s.exitPc ≠ .join) :
    u.irq.thread.irqList = s.irq.thread.irqList ∧ u.irq.pc = s.irq.pc := by
  unfold wasmIrqThreadExit at h
  split at h
  case h_5 hpc => exact absurd hpc hj
  case h_6 => cases h
  all_goals
    cases h
    exact ⟨rfl, rfl⟩

variable {s t : Accounting}

theorem fires_eq_some {a : Action} {p : Addr} (h : fires a = some p) : a = .interrupt p := by
  cases a with
  | interrupt q =>
    cases h
    rfl
  | _ => cases h

theorem completes_eq_some {pc : WorkerPc} {a : Action} {p : Addr} (h : completes pc a = some p) :
    fires a = none ∧ ∃ call todo, pc = .calling p call todo := by
  cases a with
  | callReturn result =>
    cases result with
    | none => cases h
    | some ret =>
      cases pc with
      | calling q call todo =>
        cases h
        exact ⟨rfl, call, todo, rfl⟩
      | _ => cases h
  | _ => cases h

/-- A step of the bridge keeps the books. -/
theorem booked_bridge {a : Action} {u : IrqState} (hi : Booked s) (hb : Bounded s (.bridge a))
    (h : step ⟨s.th.thread, s.th.pc, s.masked⟩ a = some u) {q : Addr × WasmIrq}
    (hq : q ∈ u.thread.irqList.nodes) :
    q.2.refs = (bump (fires a) s.fired q.1 : Int) - bump (completes s.th.pc a) s.completed q.1 ∧
      0 ≤ q.2.refs ∧ q.2.refs ≤ intMax := by
  obtain ⟨n, hn, he, -⟩ := mem_step h hq
  obtain ⟨hr, hle, hmax⟩ := hi.refs _ hn
  simp only at hr he hle hmax
  rw [he]
  by_cases hf : fires a = some q.1
  · -- one more has fired
    have ha := fires_eq_some hf
    subst ha
    have hlt : n.refs < intMax := by
      rw [hr]
      exact hb q.1 rfl
    simp only [fires, completes, bump, if_true, reduceCtorEq, if_false]
    rw [addInt_succ hle hlt]
    omega
  · rw [if_neg hf]
    by_cases hc : completes s.th.pc a = some q.1
    · -- the call of a node with references has completed
      obtain ⟨-, call, todo, hpc⟩ := completes_eq_some hc
      obtain ⟨m, hm, hpos⟩ := hi.calling _ call todo hpc
      have hnm := NodeList.eq_of_mem hn hm
      subst hnm
      rw [if_pos hc, addInt_pred hpos hmax, bump, if_neg hf, bump, if_pos hc]
      omega
    · rw [if_neg hc, bump, if_neg hf, bump, if_neg hc]
      exact ⟨hr, hle, hmax⟩

/-- In a wasm handler call the node has references, and keeps them until the call returns. -/
theorem calling_bridge {a : Action} {u : IrqState} (hi : Booked s) (hb : Bounded s (.bridge a))
    (h : step ⟨s.th.thread, s.th.pc, s.masked⟩ a = some u) {p : Addr} {call : WasmCall} {todo : List Addr}
    (hpc : u.pc = .calling p call todo) : ∃ n, (p, n) ∈ u.thread.irqList.nodes ∧ 0 < n.refs := by
  rcases calling_step h hpc with ⟨hold, hsweeps, hcompletes⟩ | hcalls
  · obtain ⟨m, hm, hpos⟩ := hi.calling p call todo hold
    have haddr : p ∈ u.thread.irqList.addrs := by
      rw [addrs_step h, List.mem_filter, hsweeps]
      exact ⟨NodeList.mem_addrs.2 ⟨m, hm⟩, by simp⟩
    obtain ⟨n, hn⟩ := NodeList.mem_addrs.1 haddr
    refine ⟨n, hn, ?_⟩
    obtain ⟨hbooked, -⟩ := booked_bridge hi hb h hn
    have hrefs := (hi.refs _ hm).1
    have hcompleted : bump (completes s.th.pc a) s.completed p = s.completed p := by
      rw [bump, if_neg]
      rw [hcompletes]
      simp
    have hfired : s.fired p ≤ bump (fires a) s.fired p := by
      unfold bump
      split_ifs <;> omega
    simp only at hbooked hrefs hcompleted
    omega
  · obtain ⟨n, -, hn, hpos, rfl⟩ := calls_step hcalls h
    exact ⟨n, hn, hpos⟩

theorem booked_exit (hi : Booked s) (h : accountingStep s .exit = some t) : Booked t := by
  simp only [accountingStep] at h
  split_ifs at h with hj
  obtain ⟨u, hu, rfl⟩ := Option.map_eq_some_iff.1 h
  obtain ⟨hlist, hpc⟩ := exit_nodes hu hj
  refine ⟨fun q hq => ?_, fun p call todo hcall => ?_⟩
  · simp only [Accounting.nodes, IrqThread.after, hlist] at hq
    exact hi.refs q hq
  · simp only [Accounting.nodes, IrqThread.after, hlist, hpc] at hcall ⊢
    exact hi.calling p call todo hcall

/-! ## Registration -/

/-- A registration that succeeds links a node without references at the tail. -/
theorem register_nodes {th th' : IrqThread} {irq index arg : UInt32} {node : Addr}
    (h : wasmInterruptRegister th irq index arg (some node) = .ok th') : node ∉ th.addrs ∧
      th'.thread.irqList.nodes = th.thread.irqList.nodes ++ [(node, ⟨0, irq, 0, index, arg⟩)] ∧
      th'.pc = th.pc.concat node := by
  unfold wasmInterruptRegister at h
  split_ifs at h
  simp only at h
  split_ifs at h with hn
  cases h
  exact ⟨hn, rfl, rfl⟩

theorem concat_calling {pc : WorkerPc} {node p : Addr} {call : WasmCall} {todo : List Addr}
    (h : pc.concat node = .calling p call todo) : ∃ todo', pc = .calling p call todo' := by
  unfold WorkerPc.concat at h
  split at h
  · cases h
  · cases h
    exact ⟨_, rfl⟩
  · exact ⟨todo, h⟩

theorem booked_register {irq index arg : UInt32} {node : Addr} (hi : Booked s)
    (h : accountingStep s (.register irq index arg node) = some t) : Booked t := by
  simp only [accountingStep] at h
  split at h
  · rename_i th hth
    cases h
    obtain ⟨hnew, hnodes, hpc⟩ := register_nodes hth
    refine ⟨fun q hq => ?_, fun p call todo hcall => ?_⟩
    · simp only [Accounting.nodes, hnodes, List.mem_append, List.mem_singleton] at hq ⊢
      rcases hq with hq | rfl
      · have hne : q.1 ≠ node := by
          rintro rfl
          exact hnew (NodeList.mem_addrs.2 ⟨q.2, hq⟩)
        rw [Function.update_of_ne hne, Function.update_of_ne hne]
        exact hi.refs q hq
      · simp [intMax]
    · simp only [hpc] at hcall
      obtain ⟨todo', hold⟩ := concat_calling hcall
      obtain ⟨n, hn, hpos⟩ := hi.calling p call todo' hold
      refine ⟨n, ?_, hpos⟩
      simp only [Accounting.nodes, hnodes]
      exact List.mem_append_left _ hn
  · cases h
    exact hi

theorem booked_unregister (irq : UInt32) (hi : Booked s) : Booked { s with th := wasmInterruptUnregister s.th irq } := by
  unfold wasmInterruptUnregister
  split_ifs
  · exact hi
  all_goals
    refine ⟨fun q hq => ?_, fun p call todo hcall => ?_⟩
    · obtain ⟨r, hr, rfl⟩ := List.mem_map.1 hq
      have hrefs := hi.refs r hr
      simp only
      split_ifs <;> exact hrefs
    · obtain ⟨n, hn, hpos⟩ := hi.calling p call todo hcall
      refine ⟨_, List.mem_map.2 ⟨(p, n), hn, rfl⟩, ?_⟩
      simp only
      split_ifs <;> exact hpos

/-! ## Runs -/

theorem booked_step {a : AccountingAction} (hi : Booked s) (hb : Bounded s a) (h : accountingStep s a = some t) :
    Booked t := by
  cases a with
  | bridge a =>
    obtain ⟨u, hu, rfl⟩ := Option.map_eq_some_iff.1 h
    exact ⟨fun q hq => booked_bridge hi hb hu hq, fun p call todo hpc => calling_bridge hi hb hu hpc⟩
  | exit => exact booked_exit hi h
  | register irq index arg node => exact booked_register hi h
  | unregister irq =>
    cases h
    exact booked_unregister irq hi

/-- In every state of every run with fewer than 2^31 interrupts of a node outstanding the accounts are
exact. -/
theorem exact_of_bounded {ptIrq : Int32} {execEnv : Addr} {as : List AccountingAction}
    (h : exec accountingStep (.start ptIrq execEnv) as = some s)
    (hb : Meets accountingStep Bounded (.start ptIrq execEnv) as) : Exact s :=
  exact_of_booked (exec_invariant (fun _ _ _ hi hb h => booked_step hi hb h) (booked_start ptIrq execEnv) hb h)

/-- Two interrupts of one node, the second during the call for the first, and the two calls. -/
def servedTwice : List AccountingAction :=
  [.register 3 5 7 0x2000, .bridge (.initThreadEnv true), .bridge (.interrupt 0x2000), .bridge .worker,
    .bridge .worker, .bridge (.irqEnable 3), .bridge (.interrupt 0x2000), .bridge (.callReturn (some none)),
    .bridge .worker, .bridge .worker, .bridge .worker, .bridge .worker, .bridge .worker,
    .bridge (.callReturn (some none)), .bridge .worker]

theorem exact_servedTwice : Exact ((exec accountingStep (.start 4 0x1000) servedTwice).get (by decide)) :=
  @exact_of_bounded _ 4 0x1000 servedTwice (by simp) (by decide)

end VelaWasm.Irq
