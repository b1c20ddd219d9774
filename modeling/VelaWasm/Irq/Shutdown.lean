/-
Shutdown of the IRQ bridge: `wasm_irq_thread_exit`, one step per access to what it shares with the
worker, interleaved with the steps of the worker and the interrupts. The exit reads `irq_status` to
decide whether to post, and the worker stores `WASM_IRQ_STOP` only after it has tested `irq_exit`: a
read between the test and the store posts nothing, and the worker then sleeps with the exit joining it.
In runs without such a read the worker, once joined, never goes to sleep on a semaphore at zero.
-/
import VelaWasm.Irq.Worker
import VelaWasm.Lib.Run

namespace VelaWasm.Irq

open VelaWasm.Run

/-! ## Steps -/

/-- The next statement of `wasm_irq_thread_exit`. -/
inductive ExitPc where
  /-- called, at `if (pt_irq < 0)` -/
  | testPtIrq
  /-- at the store of `irq_exit` -/
  | setIrqExit
  /-- at `if (irq_status == WASM_IRQ_STOP)` -/
  | readStatus
  /-- at `sem_post` -/
  | semPost
  /-- in `pthread_join` -/
  | join
  | returned
  deriving DecidableEq, Repr

/-- The bridge and the call of `wasm_irq_thread_exit`. -/
structure Shutdown where
  irq : IrqState
  ptIrq : Int32
  exitPc : ExitPc

/-- The next step of `wasm_irq_thread_exit`; `none` while it waits for the worker or has returned. -/
def wasmIrqThreadExit (s : Shutdown) : Option Shutdown :=
  match s.exitPc with
  | .testPtIrq => some { s with exitPc := if s.ptIrq < 0 then .returned else .setIrqExit }
  | .setIrqExit =>
    some { s with irq := { s.irq with thread := { s.irq.thread with irqExit := true } }, exitPc := .readStatus }
  | .readStatus => some { s with exitPc := if s.irq.thread.irqStatus = wasmIrqStop then .semPost else .join }
  | .semPost =>
    some { s with
      irq := { s.irq with thread := { s.irq.thread with wasmIrqSem := s.irq.thread.wasmIrqSem + 1 } }
      exitPc := .join }
  | .join =>
    if s.irq.pc = .exited then
      some { s with
        irq := { s.irq with thread := { s.irq.thread with irqStatus := wasmIrqStop, irqList := ⟨[], List.nodup_nil⟩ } }
        exitPc := .returned }
    else none
  | .returned => none

inductive ShutdownAction where
  /-- a step of the worker, an interrupt or a change of a mask -/
  | bridge (a : Action)
  /-- the next step of `wasm_irq_thread_exit` -/
  | exit
  deriving DecidableEq, Repr

def shutdownStep (s : Shutdown) : ShutdownAction → Option Shutdown
  | .bridge a => (step s.irq a).map fun irq => { s with irq }
  | .exit => wasmIrqThreadExit s

/-! ## Definitions -/

/-- The bridge when the worker thread is created and `wasm_irq_thread_exit` is called. -/
structure ShutdownStarted (s : Shutdown) : Prop where
  pc : s.irq.pc = .start
  exit : s.irq.thread.irqExit = false
  status : s.irq.thread.irqStatus = wasmIrqStop
  sem : s.irq.thread.wasmIrqSem = 0
  exitPc : s.exitPc = .testPtIrq

/-- The exit joins a worker that is blocked in `sem_wait`. -/
def Deadlocked (s : Shutdown) : Prop :=
  s.exitPc = .join ∧ s.irq.pc = .wait ∧ s.irq.thread.wasmIrqSem = 0

/-- The worker has passed its test of `irq_exit` and not yet published `WASM_IRQ_STOP`, and nothing has
been posted. -/
def BeforeStop (s : IrqState) : Prop :=
  s.pc = .storeStop ∧ s.thread.irqStatus ≠ wasmIrqStop ∧ s.thread.wasmIrqSem = 0

/-- `wasm_irq_thread_exit` does not read `irq_status` between the worker's test and its store. -/
def ReadsOutside (s : Shutdown) (a : ShutdownAction) : Prop :=
  a = .exit → s.exitPc = .readStatus → ¬ BeforeStop s.irq

instance : DecidablePred Deadlocked := fun _ => inferInstanceAs (Decidable (_ ∧ _ ∧ _))

instance : DecidablePred BeforeStop := fun _ => inferInstanceAs (Decidable (_ ∧ _ ∧ _))

instance (s : Shutdown) : DecidablePred (ReadsOutside s) := fun _ => inferInstanceAs (Decidable (_ → _ → ¬ _))

/-! ## The worker's way to `sem_wait` -/

/-- The worker sleeps or goes to sleep next. -/
def WorkerPc.sleeping : WorkerPc → Bool
  | .storeStop | .wait => true
  | _ => false

/-- What a step of the bridge does to the words the exit looks at. The worker enters `storeStop` only
past its test of `irq_exit`, and `wait` only by storing `WASM_IRQ_STOP`. -/
structure BridgeStep (s t : IrqState) : Prop where
  exit : s.thread.irqExit = true → t.thread.irqExit = true
  sleeping : t.pc.sleeping = true → s.thread.wasmIrqSem ≤ t.thread.wasmIrqSem ∧
    (s.pc.sleeping = true ∨ s.thread.irqExit = false)
  wait : t.pc = .wait → t.thread.irqStatus = wasmIrqStop ∨ s.pc = .wait ∧ t.thread.irqStatus = s.thread.irqStatus

/-- A step that ends away from `sem_wait` and leaves `irq_exit` set. -/
theorem bridgeStep_of_awake {s t : IrqState} (he : s.thread.irqExit = true → t.thread.irqExit = true)
    (ht : t.pc.sleeping = false) : BridgeStep s t := by
  refine ⟨he, fun h => ?_, fun h => ?_⟩
  · rw [ht] at h
    cases h
  · rw [h] at ht
    cases ht

theorem bridgeStep_worker {s t : IrqState} (h : workerStep s = some t) : BridgeStep s t := by
  unfold workerStep at h
  split at h
  case h_1 => split_ifs at h <;> cases h <;> exact bridgeStep_of_awake id rfl
  case h_2 => cases h; exact bridgeStep_of_awake id rfl
  case h_3 p todo hpc =>
    obtain ⟨n, -, rfl⟩ := Option.map_eq_some_iff.1 h
    unfold visitNode
    split_ifs <;> exact bridgeStep_of_awake id rfl
  case h_4 => cases h; exact bridgeStep_of_awake id rfl
  case h_5 flag hpc =>
    cases h
    cases hc : !flag && !s.thread.irqExit with
    | false => exact bridgeStep_of_awake id rfl
    | true =>
      simp only [Bool.and_eq_true, Bool.not_eq_true'] at hc
      exact ⟨id, fun _ => ⟨Nat.le_refl _, .inr hc.2⟩, fun h => by cases h⟩
  case h_6 hpc => cases h; exact ⟨id, fun _ => ⟨Nat.le_refl _, .inl (by rw [hpc]; rfl)⟩, fun _ => .inl rfl⟩
  case h_7 =>
    split_ifs at h
    cases h
    exact bridgeStep_of_awake id rfl
  case h_8 => cases h; exact bridgeStep_of_awake id rfl
  all_goals cases h

theorem bridgeStep_step {s t : IrqState} {a : Action} (h : step s a = some t) : BridgeStep s t := by
  cases a with
  | interrupt p =>
    obtain ⟨n, -, -, rfl⟩ := step_interrupt h
    -- the handler only counts the interrupt and posts
    unfold wasmIrqHander
    simp only
    split_ifs
    · exact ⟨id, fun h => ⟨Nat.le_succ _, .inl h⟩, fun h => .inr ⟨h, rfl⟩⟩
    · exact ⟨id, fun h => ⟨Nat.le_refl _, .inl h⟩, fun h => .inr ⟨h, rfl⟩⟩
  | irqEnable irq => cases h; exact ⟨id, fun h => ⟨Nat.le_refl _, .inl h⟩, fun h => .inr ⟨h, rfl⟩⟩
  | irqDisable irq => cases h; exact ⟨id, fun h => ⟨Nat.le_refl _, .inl h⟩, fun h => .inr ⟨h, rfl⟩⟩
  | initThreadEnv ok =>
    obtain ⟨-, rfl⟩ := step_initThreadEnv h
    cases ok <;> exact bridgeStep_of_awake id rfl
  | callReturn result =>
    obtain ⟨p, call, todo, -, rfl⟩ := step_callReturn h
    cases result with
    | none => exact bridgeStep_of_awake (fun _ => rfl) rfl
    | some ret => exact bridgeStep_of_awake id rfl
  | worker => exact bridgeStep_worker h

/-! ## The invariant -/

structure ShutdownInv (s : Shutdown) : Prop where
  exit : s.exitPc = .readStatus ∨ s.exitPc = .semPost ∨ s.exitPc = .join → s.irq.thread.irqExit = true
  joined : s.exitPc = .join → s.irq.pc.sleeping = true → 0 < s.irq.thread.wasmIrqSem
  stopped : s.irq.pc = .wait → s.irq.thread.irqStatus = wasmIrqStop

theorem shutdownInv_started {s : Shutdown} (h : ShutdownStarted s) : ShutdownInv s := by
  refine ⟨fun he => ?_, fun he => ?_, fun hw => ?_⟩
  · rw [h.exitPc] at he
    rcases he with he | he | he <;> cases he
  · rw [h.exitPc] at he
    cases he
  · rw [h.pc] at hw
    cases hw

theorem not_deadlocked {s : Shutdown} (hi : ShutdownInv s) : ¬ Deadlocked s := by
  rintro ⟨hj, hw, hsem⟩
  have hpos := hi.joined hj (by rw [hw]; rfl)
  omega

theorem shutdownInv_bridge {s : Shutdown} {irq : IrqState} (hi : ShutdownInv s) (h : BridgeStep s.irq irq) :
    ShutdownInv { s with irq } := by
  refine ⟨fun he => h.exit (hi.exit he), fun hj hs => ?_, fun hw => ?_⟩
  · obtain ⟨hle, hs | hexit⟩ := h.sleeping hs
    · have hpos := hi.joined hj hs
      simp only at hle ⊢
      omega
    · -- a worker that tests `irq_exit` once the exit joins it does not go to sleep
      have hset := hi.exit (.inr (.inr hj))
      rw [hset] at hexit
      cases hexit
  · rcases h.wait hw with hst | ⟨hw, hst⟩
    · exact hst
    · exact hst.trans (hi.stopped hw)

theorem shutdownInv_exit {s t : Shutdown} (hi : ShutdownInv s) (hok : ReadsOutside s .exit)
    (h : wasmIrqThreadExit s = some t) : ShutdownInv t := by
  unfold wasmIrqThreadExit at h
  split at h
  case h_1 =>
    cases h
    split_ifs <;> exact ⟨by simp, by simp, hi.stopped⟩
  case h_2 => cases h; exact ⟨fun _ => rfl, by simp, hi.stopped⟩
  case h_3 hpc =>
    have hexit := hi.exit (.inl hpc)
    cases h
    split_ifs with hst
    · exact ⟨fun _ => hexit, by simp, hi.stopped⟩
    · refine ⟨fun _ => hexit, fun _ hs => ?_, hi.stopped⟩
      simp only at hs ⊢
      have hnw : s.irq.pc ≠ .wait := fun hw => hst (hi.stopped hw)
      have hstore : s.irq.pc = .storeStop := by
        revert hs hnw
        cases s.irq.pc <;> simp [WorkerPc.sleeping]
      by_contra hsem
      exact hok rfl hpc ⟨hstore, hst, by omega⟩
  case h_4 hpc =>
    cases h
    exact ⟨fun _ => hi.exit (.inr (.inl hpc)), fun _ _ => Nat.succ_pos _, hi.stopped⟩
  case h_5 hpc =>
    split_ifs at h
    cases h
    exact ⟨by simp, by simp, fun _ => rfl⟩
  case h_6 => cases h

theorem shutdownInv_step {s t : Shutdown} {a : ShutdownAction} (hi : ShutdownInv s) (hok : ReadsOutside s a)
    (h : shutdownStep s a = some t) : ShutdownInv t := by
  cases a with
  | bridge a =>
    obtain ⟨irq, hirq, rfl⟩ := Option.map_eq_some_iff.1 h
    exact shutdownInv_bridge hi (bridgeStep_step hirq)
  | exit => exact shutdownInv_exit hi hok h

/-! ## The deadlock -/

/-- The exit has read `irq_status` in front of the worker's store of `WASM_IRQ_STOP`. -/
def ReadTooEarly (s : Shutdown) : Prop := s.exitPc = .join ∧ BeforeStop s.irq

/-- Such a read posts nothing. -/
theorem readTooEarly_exit {s t : Shutdown} {a : ShutdownAction} (hok : ¬ ReadsOutside s a)
    (h : shutdownStep s a = some t) : ReadTooEarly t := by
  simp only [ReadsOutside, not_forall, not_not] at hok
  obtain ⟨rfl, hpc, hw⟩ := hok
  simp only [shutdownStep, wasmIrqThreadExit, hpc] at h
  cases h
  exact ⟨if_neg hw.2.1, hw⟩

/-- Before the worker's store nothing posts and the exit waits. -/
theorem readTooEarly_step {s t : Shutdown} {a : ShutdownAction} (hs : ReadTooEarly s)
    (h : shutdownStep s a = some t) (hn : ¬ Deadlocked t) : ReadTooEarly t := by
  obtain ⟨hj, hpc, hst, hsem⟩ := hs
  cases a with
  | bridge a =>
    obtain ⟨irq, hirq, rfl⟩ := Option.map_eq_some_iff.1 h
    cases a with
    | interrupt p =>
      obtain ⟨n, -, -, rfl⟩ := step_interrupt hirq
      unfold wasmIrqHander
      rw [if_neg hst]
      exact ⟨hj, hpc, hst, hsem⟩
    | irqEnable irq => cases hirq; exact ⟨hj, hpc, hst, hsem⟩
    | irqDisable irq => cases hirq; exact ⟨hj, hpc, hst, hsem⟩
    | initThreadEnv ok => simp [step, hpc] at hirq
    | callReturn result => simp [step, hpc] at hirq
    | worker =>
      simp only [step, workerStep, hpc] at hirq
      cases hirq
      exact absurd ⟨hj, rfl, hsem⟩ hn
  | exit => simp [shutdownStep, wasmIrqThreadExit, hj, hpc] at h

/-- The worker's store is its last step before it sleeps. -/
theorem deadlocked_of_readTooEarly {s : Shutdown} (hs : ReadTooEarly s) :
    ∃ a t, shutdownStep s a = some t ∧ ¬ ¬ Deadlocked t := by
  obtain ⟨hj, hpc, -, hsem⟩ := hs
  let t : Shutdown :=
    { s with irq := { s.irq with thread := { s.irq.thread with irqStatus := wasmIrqStop }, pc := .wait } }
  have ht : shutdownStep s (.bridge .worker) = some t := by
    simp only [shutdownStep, step, workerStep, hpc]
    rfl
  exact ⟨_, t, ht, not_not_intro ⟨hj, rfl, hsem⟩⟩

/-- A step taken in front of the store does not itself deadlock. -/
theorem not_deadlocked_step {s t : Shutdown} {a : ShutdownAction} (hi : ShutdownInv s)
    (h : shutdownStep s a = some t) : ¬ Deadlocked t := by
  by_cases hok : ReadsOutside s a
  · exact not_deadlocked (shutdownInv_step hi hok h)
  · obtain ⟨-, hpc, -⟩ := readTooEarly_exit hok h
    rintro ⟨-, hw, -⟩
    rw [hpc] at hw
    cases hw

/-- A run and its next step are free of deadlocks exactly when no read of `irq_status` by the exit falls
between the worker's test and its store. -/
theorem never_deadlocked_iff {s₀ s : Shutdown} {as : List ShutdownAction} (h0 : ShutdownStarted s₀)
    (h : exec shutdownStep s₀ as = some s) :
    (∀ b, Along shutdownStep (fun t => ¬ Deadlocked t) s₀ (as ++ [b])) ↔ Meets shutdownStep ReadsOutside s₀ as :=
  along_next_iff_meets (fun _ hi => not_deadlocked hi) (fun _ _ _ hi hok ht => shutdownInv_step hi hok ht)
    (fun _ _ _ hi ht => not_deadlocked_step hi ht) (fun _ _ _ _ hok ht => readTooEarly_exit hok ht)
    (fun _ _ _ hs ht hn => readTooEarly_step hs ht hn) (fun _ hs => deadlocked_of_readTooEarly hs)
    (shutdownInv_started h0) h

/-- A worker with one registered node. -/
def sharedNode : Shutdown where
  irq := ⟨⟨false, 1, ⟨[(16, ⟨0, 9, 0, 2, 6⟩)], by decide⟩, wasmIrqStop, 0⟩, .start, []⟩
  ptIrq := 12
  exitPc := .testPtIrq

/-- The worker sleeps when the exit is called. -/
def cleanExit : List ShutdownAction :=
  [.bridge (.initThreadEnv true), .bridge .worker, .bridge .worker, .bridge .worker, .bridge .worker,
    .bridge .worker, .bridge .worker, .exit, .exit, .exit, .exit, .bridge .worker, .bridge .worker,
    .bridge .worker, .exit]

theorem never_deadlocked_clean :
    (∃ s, exec shutdownStep sharedNode cleanExit = some s ∧ s.exitPc = .returned) ∧
      ∀ b, Along shutdownStep (fun t => ¬ Deadlocked t) sharedNode (cleanExit ++ [b]) := by
  have h0 : ShutdownStarted sharedNode := by constructor <;> rfl
  have hm : Meets shutdownStep ReadsOutside sharedNode cleanExit := by decide
  exact ⟨⟨_, rfl, rfl⟩, (never_deadlocked_iff h0 rfl).2 hm⟩

/-- The worker has served an interrupt and finds nothing more to do; the exit reads `irq_status` before
the worker stores it. -/
def earlyRead : List ShutdownAction :=
  [.bridge (.initThreadEnv true), .bridge .worker, .bridge .worker, .bridge .worker, .bridge .worker,
    .bridge .worker, .bridge .worker, .bridge (.interrupt 16), .bridge .worker, .bridge .worker,
    .bridge .worker, .bridge .worker, .bridge (.callReturn (some none)), .bridge .worker, .bridge .worker,
    .bridge .worker, .exit, .exit, .exit, .bridge .worker]

theorem shutdown_deadlock :
    ¬ ∀ (s₀ s : Shutdown) (as : List ShutdownAction), ShutdownStarted s₀ →
      exec shutdownStep s₀ as = some s → ¬ Deadlocked s := by
  intro h
  exact h sharedNode _ earlyRead (by constructor <;> rfl) rfl ⟨rfl, rfl, rfl⟩

end VelaWasm.Irq
