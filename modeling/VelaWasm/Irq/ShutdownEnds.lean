/-
The end of a shutdown. Once `irq_exit` is set, the worker and `wasm_irq_thread_exit` take a bounded number of steps
whatever interrupts fire meanwhile: the worker finishes its pass and then leaves its loop. In runs in which the exit
reads `irq_status` outside the worker's way to sleep, the two stop only when the exit has returned.
-/
import VelaWasm.Irq.Drain

namespace VelaWasm.Irq

open VelaWasm.Run

/-! ## Definitions -/

/-- A step of the worker or of `wasm_irq_thread_exit`, not an interrupt or a mask. -/
def ShutdownAction.own : ShutdownAction → Bool
  | .bridge (.initThreadEnv _) | .bridge (.callReturn _) | .bridge .worker | .exit => true
  | .bridge (.interrupt _) | .bridge (.irqEnable _) | .bridge (.irqDisable _) => false

def ShutdownAction.cost (a : ShutdownAction) : ℕ := if a.own then 1 else 0

/-- The steps to the end of `wasm_irq_thread_exit`. -/
def ExitPc.stepsLeft : ExitPc → ℕ
  | .testPtIrq => 5
  | .setIrqExit => 4
  | .readStatus => 3
  | .semPost => 2
  | .join => 1
  | .returned => 0

/-- The steps to the end of the worker once `irq_exit` is set. -/
def WorkerPc.stepsLeft : WorkerPc → ℕ
  | .exited => 0
  | .loop => 1
  | .start | .test _ | .storeRun => 2
  | .rescan | .wait => 3
  | .storeStop => 4
  | .visit todo => 4 + 2 * todo.length
  | .calling _ _ todo => 5 + 2 * todo.length

def Shutdown.stepsLeft (s : Shutdown) : ℕ := s.exitPc.stepsLeft + s.irq.pc.stepsLeft

/-- Neither the worker nor `wasm_irq_thread_exit` can take a step. -/
def Stopped (s : Shutdown) : Prop := ∀ a : ShutdownAction, a.own = true → shutdownStep s a = none

/-! ## Steps -/

variable {s t : IrqState} {u v : Shutdown}

theorem stepsLeft_worker (he : s.thread.irqExit = true) (h : workerStep s = some t) :
    1 + t.pc.stepsLeft ≤ s.pc.stepsLeft := by
  unfold workerStep at h
  split at h
  case h_1 hpc =>
    rw [if_pos he] at h
    cases h
    simp [hpc, WorkerPc.stepsLeft]
  case h_3 p todo hpc =>
    obtain ⟨n, -, rfl⟩ := Option.map_eq_some_iff.1 h
    unfold visitNode
    split_ifs <;> simp only [hpc, WorkerPc.stepsLeft, List.length_cons] <;> omega
  case h_5 flag hpc =>
    cases h
    simp [hpc, he, WorkerPc.stepsLeft]
  case h_7 hpc =>
    split_ifs at h
    cases h
    simp [hpc, WorkerPc.stepsLeft]
  case h_9 => cases h
  case h_10 => cases h
  case h_11 => cases h
  all_goals
    rename_i hpc
    cases h
    simp [hpc, WorkerPc.stepsLeft]

/-- An interrupt does not hold up the worker. -/
theorem stepsLeft_bridge {a : Action} (he : s.thread.irqExit = true) (h : step s a = some t) :
    (ShutdownAction.bridge a).cost + t.pc.stepsLeft ≤ s.pc.stepsLeft := by
  cases a with
  | interrupt p =>
    obtain ⟨n, -, -, rfl⟩ := step_interrupt h
    rw [(wasmIrqHander_pc s p n).1]
    simp [ShutdownAction.cost, ShutdownAction.own]
  | irqEnable irq | irqDisable irq =>
    cases h
    simp [ShutdownAction.cost, ShutdownAction.own]
  | initThreadEnv ok =>
    obtain ⟨hpc, rfl⟩ := step_initThreadEnv h
    cases ok <;> simp [hpc, ShutdownAction.cost, ShutdownAction.own, WorkerPc.stepsLeft]
  | callReturn result =>
    obtain ⟨p, call, todo, hpc, rfl⟩ := step_callReturn h
    cases result <;> simp only [hpc, callReturn, ShutdownAction.cost, ShutdownAction.own, WorkerPc.stepsLeft] <;>
      simp <;> omega
  | worker => exact stepsLeft_worker he h

theorem stepsLeft_exit (h : wasmIrqThreadExit u = some v) : 1 + v.stepsLeft ≤ u.stepsLeft := by
  unfold wasmIrqThreadExit at h
  split at h
  case h_1 hpc =>
    cases h
    simp only [Shutdown.stepsLeft, hpc]
    split_ifs <;> simp only [ExitPc.stepsLeft] <;> omega
  case h_3 hpc =>
    cases h
    simp only [Shutdown.stepsLeft, hpc]
    split_ifs <;> simp only [ExitPc.stepsLeft] <;> omega
  case h_5 hpc =>
    split_ifs at h
    cases h
    simp only [Shutdown.stepsLeft, hpc, ExitPc.stepsLeft]
    omega
  case h_6 => cases h
  all_goals
    rename_i hpc
    cases h
    simp only [Shutdown.stepsLeft, hpc, ExitPc.stepsLeft]
    omega

theorem irqExit_step {a : ShutdownAction} (he : u.irq.thread.irqExit = true) (h : shutdownStep u a = some v) :
    v.irq.thread.irqExit = true := by
  cases a with
  | bridge a =>
    obtain ⟨irq, hirq, rfl⟩ := Option.map_eq_some_iff.1 h
    exact (bridgeStep_step hirq).exit he
  | exit =>
    simp only [shutdownStep, wasmIrqThreadExit] at h
    split at h
    case h_5 =>
      split_ifs at h
      cases h
      exact he
    case h_6 => cases h
    case h_2 => cases h; rfl
    all_goals
      cases h
      exact he

theorem stepsLeft_step {a : ShutdownAction} (he : u.irq.thread.irqExit = true) (h : shutdownStep u a = some v) :
    a.cost + v.stepsLeft ≤ u.stepsLeft := by
  cases a with
  | bridge a =>
    obtain ⟨irq, hirq, rfl⟩ := Option.map_eq_some_iff.1 h
    have hle := stepsLeft_bridge he hirq
    simp only [Shutdown.stepsLeft]
    omega
  | exit => exact stepsLeft_exit h

theorem ahead_shutdown {a : ShutdownAction} (hi : Ahead u.irq.pc u.irq.thread.irqList.addrs)
    (h : shutdownStep u a = some v) : Ahead v.irq.pc v.irq.thread.irqList.addrs := by
  cases a with
  | bridge a =>
    obtain ⟨irq, hirq, rfl⟩ := Option.map_eq_some_iff.1 h
    exact ahead_step hi hirq
  | exit =>
    simp only [shutdownStep, wasmIrqThreadExit] at h
    split at h
    case h_5 =>
      -- the list is cleared when the worker has ended
      split_ifs at h with hpc
      cases h
      exact ahead_nil (by rw [hpc]; rfl) _
    case h_6 => cases h
    all_goals
      cases h
      exact hi

/-! ## Rest -/

theorem worker_of_stopped (hi : Ahead u.irq.pc u.irq.thread.irqList.addrs) (hs : Stopped u) :
    u.irq.pc = .exited ∨ Blocked u.irq := by
  have hstep : ∀ a : Action, (ShutdownAction.bridge a).own = true → step u.irq a = none := fun a ha =>
    Option.map_eq_none_iff.1 (hs (.bridge a) ha)
  refine exited_or_blocked hi (fun hpc => ?_) (fun p call todo hpc => ?_) (hstep .worker rfl)
  · exact absurd (hstep (.initThreadEnv true) rfl) (by simp [step, hpc])
  · exact absurd (hstep (.callReturn none) rfl) (by simp [step, hpc])

/-- `wasm_irq_thread_exit` stops only when it joins the worker or has returned. -/
theorem exit_of_stopped (hs : Stopped u) : u.exitPc = .returned ∨ u.exitPc = .join ∧ u.irq.pc ≠ .exited := by
  have hexit : wasmIrqThreadExit u = none := hs .exit rfl
  unfold wasmIrqThreadExit at hexit
  split at hexit
  case h_5 hpc =>
    split_ifs at hexit with hend
    exact .inr ⟨hpc, hend⟩
  case h_6 hpc => exact .inl hpc
  all_goals cases hexit

theorem returned_of_stopped (hi : ShutdownInv u) (ha : Ahead u.irq.pc u.irq.thread.irqList.addrs) (hs : Stopped u) :
    u.exitPc = .returned := by
  rcases exit_of_stopped hs with h | ⟨hjoin, hend⟩
  · exact h
  · obtain ⟨hwait, hsem⟩ := (worker_of_stopped ha hs).resolve_left hend
    exact absurd ⟨hjoin, hwait, hsem⟩ (not_deadlocked hi)

/-- Once `irq_exit` is set in a run in which the exit does not read `irq_status` in front of the worker's store, the
worker and the exit take at most `stepsLeft` more steps, whatever interrupts fire meanwhile, and they stop only when
`wasm_irq_thread_exit` has returned. -/
theorem shutdown_ends {u₀ u v : Shutdown} {as bs : List ShutdownAction} (h0 : ShutdownStarted u₀)
    (h : exec shutdownStep u₀ as = some u) (hm : Meets shutdownStep ReadsOutside u₀ as)
    (he : u.irq.thread.irqExit = true) (hv : exec shutdownStep u bs = some v)
    (hmv : Meets shutdownStep ReadsOutside u bs) :
    (bs.map ShutdownAction.cost).sum + v.stepsLeft ≤ u.stepsLeft ∧ (Stopped v → v.exitPc = .returned) := by
  refine ⟨cost_le (I := fun s => s.irq.thread.irqExit = true) (fun _ _ _ => irqExit_step)
    (fun _ _ _ => stepsLeft_step) he hv, fun hs => ?_⟩
  have hstep : ∀ s a t, ShutdownInv s ∧ Ahead s.irq.pc s.irq.thread.irqList.addrs → ReadsOutside s a →
      shutdownStep s a = some t → ShutdownInv t ∧ Ahead t.irq.pc t.irq.thread.irqList.addrs :=
    fun s a t hi hok ht => ⟨shutdownInv_step hi.1 hok ht, ahead_shutdown hi.2 ht⟩
  have hstart : ShutdownInv u₀ ∧ Ahead u₀.irq.pc u₀.irq.thread.irqList.addrs :=
    ⟨shutdownInv_started h0, ahead_nil (by rw [h0.pc]; rfl) _⟩
  obtain ⟨hinv, hahead⟩ := exec_invariant hstep (exec_invariant hstep hstart hm h) hmv hv
  exact returned_of_stopped hinv hahead hs

/-- The worker sleeps and `irq_exit` is set. -/
def exiting : Shutdown := (exec shutdownStep sharedNode (cleanExit.take 9)).get (by decide)

theorem shutdown_ends_clean : ((cleanExit.drop 9).map ShutdownAction.cost).sum ≤ exiting.stepsLeft := by
  have h0 : ShutdownStarted sharedNode := by constructor <;> rfl
  have h := @shutdown_ends sharedNode exiting _ (cleanExit.take 9) (cleanExit.drop 9) h0 (Option.some_get _).symm
    (by decide) (by decide) rfl (by decide)
  exact Nat.le_of_add_right_le h.1

end VelaWasm.Irq
