/-
The argument of an interrupt handler. A node's argument array is also where `wasm_runtime_call_indirect` stores
what the wasm handler returns, so its next call gets that value: a node's cell holds the last value its handler
has returned, and before that the argument it was registered with. Every call of a run gets the registered
argument exactly when no handler is called again after a return of another value.
-/
import VelaWasm.Irq.Accounting

namespace VelaWasm.Irq

open VelaWasm.Run

/-! ## Steps -/

/-- A thread with, for each node, the argument it was registered with and the last value that its wasm handler
has returned since. -/
structure Deliveries where
  th : IrqThread
  masked : List UInt32
  registered : Addr → UInt32
  returned : Addr → Option UInt32

/-- The steps of `accountingStep`, and the join of `wasm_irq_thread_exit`. -/
def deliveryStep (s : Deliveries) : AccountingAction → Option Deliveries
  | .bridge a => (step ⟨s.th.thread, s.th.pc, s.masked⟩ a).map fun u =>
      { s with
        th := s.th.after (.bridge a) ⟨u, s.th.ptIrq, s.th.exitPc⟩
        masked := u.masked
        returned := fun p => (stores s.th.pc a p).or (s.returned p) }
  | .exit => (wasmIrqThreadExit (s.th.shutdown s.masked)).map fun u => { s with th := s.th.after .exit u }
  | .register irq index arg node =>
    match wasmInterruptRegister s.th irq index arg (some node) with
    | .ok th =>
      some ⟨th, s.masked, Function.update s.registered node arg, Function.update s.returned node none⟩
    | .error _ => some s
  | .unregister irq => some { s with th := wasmInterruptUnregister s.th irq }

/-- A thread that has just been created. -/
def Deliveries.start (ptIrq : Int32) (execEnv : Addr) : Deliveries :=
  ⟨wasmIrqThreadCreate ptIrq execEnv, [], fun _ => 0, fun _ => none⟩

/-! ## The property -/

/-- A wasm handler that runs was called with the argument that its node is registered with. -/
def DeliversRegistered (s : Deliveries) : Prop :=
  ∀ p call todo, s.th.pc = .calling p call todo → call.argv = [s.registered p]

/-- The step calls no wasm handler whose last return value is another than the registered argument. -/
def ReturnsRegistered (s : Deliveries) : AccountingAction → Prop
  | .bridge a => ∀ p ∈ calls ⟨s.th.thread, s.th.pc, s.masked⟩ a, ∀ v ∈ s.returned p, v = s.registered p
  | .exit | .register .. | .unregister _ => True

instance (s : Deliveries) (p : Addr) : Decidable (∀ v ∈ s.returned p, v = s.registered p) :=
  Option.decidableForallMem _

instance (s : Deliveries) : DecidablePred (ReturnsRegistered s)
  | .bridge _ => Option.decidableForallMem _
  | .exit | .register .. | .unregister _ => isTrue trivial

/-! ## The invariant -/

/-- The nodes that are not yet freed. -/
abbrev Deliveries.nodes (s : Deliveries) : List (Addr × WasmIrq) := s.th.thread.irqList.nodes

/-- An argument array holds the last value returned, else the registered argument, and the node of a call is
listed while the call lasts. -/
structure ArgumentInv (s : Deliveries) : Prop where
  arg : ∀ q ∈ s.nodes, q.2.arg = (s.returned q.1).getD (s.registered q.1)
  listed : ∀ p call todo, s.th.pc = .calling p call todo → p ∈ s.th.addrs
  delivers : DeliversRegistered s

theorem argumentInv_start (ptIrq : Int32) (execEnv : Addr) : ArgumentInv (.start ptIrq execEnv) :=
  ⟨fun _ h => (by cases h), fun _ _ _ h => (by cases h), fun _ _ _ h => by cases h⟩

variable {s t : Deliveries}

/-! ## Steps keep the invariant -/

theorem argumentInv_bridge {a : Action} (hi : ArgumentInv s) (hok : ReturnsRegistered s (.bridge a))
    (h : deliveryStep s (.bridge a) = some t) : ArgumentInv t := by
  obtain ⟨u, hu, rfl⟩ := Option.map_eq_some_iff.1 h
  refine ⟨fun q hq => ?_, fun p call todo hpc => ?_, fun p call todo hpc => ?_⟩
  · obtain ⟨n, hn, -, harg⟩ := mem_step hu hq
    rw [harg, hi.arg _ hn]
    exact Option.getD_or.symm
  · rcases calling_step hu hpc with ⟨hold, hsweeps, -⟩ | hcalls
    · have hlisted := hi.listed p call todo hold
      simp only [IrqThread.addrs, IrqThread.after, addrs_step hu, hsweeps]
      exact List.mem_filter.2 ⟨hlisted, by simp⟩
    · obtain ⟨n, -, hn, -, rfl⟩ := calls_step hcalls hu
      exact NodeList.mem_addrs.2 ⟨n, hn⟩
  · rcases calling_step hu hpc with ⟨hold, -, -⟩ | hcalls
    · exact hi.delivers p call todo hold
    · -- the call gets the cell, which a return of the registered argument does not change
      obtain ⟨n, todo', hn, -, rfl⟩ := calls_step hcalls hu
      cases hpc
      have harg : n.arg = s.registered p := by
        rw [hi.arg _ hn]
        cases hr : s.returned p with
        | none => rfl
        | some v => exact hok p hcalls v hr
      rw [harg]

theorem argumentInv_exit (hi : ArgumentInv s) (h : deliveryStep s .exit = some t) : ArgumentInv t := by
  obtain ⟨u, hu, rfl⟩ := Option.map_eq_some_iff.1 h
  by_cases hj : s.th.exitPc = .join
  · -- the worker has ended, and the list is emptied
    simp only [wasmIrqThreadExit, IrqThread.shutdown, hj] at hu
    split_ifs at hu with hexited
    cases hu
    refine ⟨fun q hq => (by cases hq), fun p call todo hpc => ?_, fun p call todo hpc => ?_⟩
    all_goals
      simp only [IrqThread.after, hexited] at hpc
      cases hpc
  · obtain ⟨hlist, hpc⟩ := exit_nodes hu hj
    refine ⟨fun q hq => ?_, fun p call todo hcall => ?_, fun p call todo hcall => ?_⟩
    · simp only [Deliveries.nodes, IrqThread.after, hlist] at hq
      exact hi.arg q hq
    · simp only [IrqThread.addrs, IrqThread.after, hlist, hpc] at hcall ⊢
      exact hi.listed p call todo hcall
    · simp only [IrqThread.after, hpc] at hcall
      exact hi.delivers p call todo hcall

theorem argumentInv_register {irq index arg : UInt32} {node : Addr} (hi : ArgumentInv s)
    (h : deliveryStep s (.register irq index arg node) = some t) : ArgumentInv t := by
  simp only [deliveryStep] at h
  split at h
  · rename_i th hth
    cases h
    obtain ⟨hnew, hnodes, hpc⟩ := register_nodes hth
    refine ⟨fun q hq => ?_, fun p call todo hcall => ?_, fun p call todo hcall => ?_⟩
    · simp only [Deliveries.nodes, hnodes, List.mem_append, List.mem_singleton] at hq
      rcases hq with hq | rfl
      · have hne : q.1 ≠ node := by
          rintro rfl
          exact hnew (NodeList.mem_addrs.2 ⟨q.2, hq⟩)
        simp only [Function.update_of_ne hne]
        exact hi.arg q hq
      · simp
    · simp only [hpc] at hcall
      obtain ⟨todo', hold⟩ := concat_calling hcall
      obtain ⟨n, hn⟩ := NodeList.mem_addrs.1 (hi.listed p call todo' hold)
      refine NodeList.mem_addrs.2 ⟨n, ?_⟩
      rw [hnodes]
      exact List.mem_append_left _ hn
    · simp only [hpc] at hcall
      obtain ⟨todo', hold⟩ := concat_calling hcall
      have hne : p ≠ node := by
        rintro rfl
        exact hnew (hi.listed p call todo' hold)
      simp only [Function.update_of_ne hne]
      exact hi.delivers p call todo' hold
  · cases h
    exact hi

theorem argumentInv_unregister (irq : UInt32) (hi : ArgumentInv s) :
    ArgumentInv { s with th := wasmInterruptUnregister s.th irq } := by
  unfold wasmInterruptUnregister
  split_ifs
  · exact hi
  all_goals
    refine ⟨fun q hq => ?_, fun p call todo hcall => ?_, hi.delivers⟩
    · obtain ⟨r, hr, rfl⟩ := List.mem_map.1 hq
      have harg := hi.arg r hr
      simp only
      split_ifs <;> exact harg
    · simp only [IrqThread.addrs, NodeList.addrs_map]
      exact hi.listed p call todo hcall

theorem argumentInv_step {a : AccountingAction} (hi : ArgumentInv s) (hok : ReturnsRegistered s a)
    (h : deliveryStep s a = some t) : ArgumentInv t := by
  cases a with
  | bridge a => exact argumentInv_bridge hi hok h
  | exit => exact argumentInv_exit hi h
  | register irq index arg node => exact argumentInv_register hi h
  | unregister irq =>
    cases h
    exact argumentInv_unregister irq hi

/-- A handler called again after a return of another value does not get the registered argument. -/
theorem not_delivers_of_returned {a : AccountingAction} (hi : ArgumentInv s) (hok : ¬ ReturnsRegistered s a)
    (h : deliveryStep s a = some t) : ¬ DeliversRegistered t := by
  cases a with
  | bridge a =>
    simp only [ReturnsRegistered, not_forall] at hok
    obtain ⟨p, hcalls, v, hv, hne⟩ := hok
    obtain ⟨u, hu, rfl⟩ := Option.map_eq_some_iff.1 h
    obtain ⟨n, todo, hn, -, rfl⟩ := calls_step hcalls hu
    intro hd
    have hdelivered : n.arg = s.registered p := by
      simpa using hd p _ todo rfl
    have hcell := hi.arg _ hn
    rw [Option.mem_def.1 hv] at hcell
    exact hne (hcell.symm.trans hdelivered)
  | exit | register _ _ _ _ | unregister _ => exact absurd trivial hok

/-! ## Runs -/

/-- A run delivers the registered argument in every call exactly when no step calls a handler that has last
returned another value. -/
theorem delivered_iff_returnsRegistered {ptIrq : Int32} {execEnv : Addr} {as : List AccountingAction}
    (h : exec deliveryStep (.start ptIrq execEnv) as = some s) :
    Along deliveryStep DeliversRegistered (.start ptIrq execEnv) as ↔
      Meets deliveryStep ReturnsRegistered (.start ptIrq execEnv) as :=
  along_iff_meets (fun _ hi => hi.delivers) (fun _ _ _ hi hok h => argumentInv_step hi hok h)
    (fun _ _ _ hi hok h => not_delivers_of_returned hi hok h) (argumentInv_start ptIrq execEnv) h

/-- Two interrupts of a node registered with 7, the second during the call for the first, whose handler returns
`ret`, and the second call. -/
def firedTwice (ret : Option UInt32) : List AccountingAction :=
  [.register 3 5 7 0x2000, .bridge (.initThreadEnv true), .bridge (.interrupt 0x2000), .bridge .worker,
    .bridge .worker, .bridge (.irqEnable 3), .bridge (.interrupt 0x2000), .bridge (.callReturn (some ret)),
    .bridge .worker, .bridge .worker, .bridge .worker, .bridge .worker, .bridge .worker]

theorem delivered_firedTwice : Along deliveryStep DeliversRegistered (.start 4 0x1000) (firedTwice none) :=
  (@delivered_iff_returnsRegistered ((exec deliveryStep (.start 4 0x1000) (firedTwice none)).get (by decide)) 4
    0x1000 (firedTwice none) (by simp)).2 (by decide)

/-- The handler returns 9, and its next call gets 9. -/
theorem registered_not_delivered :
    ¬ ∀ (ptIrq : Int32) (execEnv : Addr) (as : List AccountingAction) (s : Deliveries),
      exec deliveryStep (.start ptIrq execEnv) as = some s → DeliversRegistered s := by
  intro h
  have hargv := h 4 0x1000 (firedTwice (some 9)) _ rfl 0x2000 ⟨0x1000, 5, [9]⟩ [] rfl
  exact absurd hargv (by decide)

end VelaWasm.Irq
