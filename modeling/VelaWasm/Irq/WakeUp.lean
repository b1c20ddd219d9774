/-
Lost wake-ups of the IRQ bridge. The worker publishes `WASM_IRQ_STOP` after it has looked for
outstanding interrupts, and the handler posts the semaphore only when it reads `WASM_IRQ_STOP`: an
interrupt between the two is recorded in `refs` and posts nothing. In runs without such an
interrupt the worker never sleeps on outstanding work; the invariant is that from the test on,
either nothing is outstanding or the semaphore is positive.
-/
import VelaWasm.Irq.Worker
import VelaWasm.Lib.Run

namespace VelaWasm.Irq

open VelaWasm.Run

/-! ## Definitions -/

/-- No interrupt of a non-released node is outstanding. -/
def Quiet (s : IrqState) : Prop :=
  ∀ q ∈ s.thread.irqList.nodes, q.2.status ≠ wasmIrqStatusReleased → q.2.refs = 0

/-- The worker sleeps in `sem_wait`. -/
def Blocked (s : IrqState) : Prop := s.pc = .wait ∧ s.thread.wasmIrqSem = 0

/-- The bridge when the worker thread is created, with any nodes registered. -/
structure Started (s : IrqState) : Prop where
  pc : s.pc = .start
  exit : s.thread.irqExit = false
  status : s.thread.irqStatus = wasmIrqStop
  sem : s.thread.wasmIrqSem = 0
  refs : ∀ q ∈ s.thread.irqList.nodes, q.2.refs = 0

/-- The worker has found nothing outstanding and goes on to wait. -/
def AboutToWait (s : IrqState) : Prop :=
  (s.pc = .test false ∧ s.thread.irqExit = false) ∨ s.pc = .storeStop ∨ s.pc = .wait

/-- The places at which the worker neither runs a wasm handler nor is about to wait. -/
def WorkerPc.passing : WorkerPc → Bool
  | .calling .. | .test false | .storeStop | .wait => false
  | _ => true

/-- The worker is about to wait on a semaphore at zero while `irq_status` still says it runs. -/
def InWindow (s : IrqState) : Prop :=
  AboutToWait s ∧ s.thread.irqStatus ≠ wasmIrqStop ∧ s.thread.wasmIrqSem = 0

/-- An interrupt of a non-released node falls outside the window, with fewer than 2^31 - 1 of them
outstanding. -/
def OutsideWindow (s : IrqState) : Action → Prop
  | .interrupt p => ∀ n ∈ s.thread.irqList.lookup p, n.status ≠ wasmIrqStatusReleased →
      n.refs < intMax ∧ ¬ InWindow s
  | _ => True

instance : DecidablePred InWindow := fun _ => inferInstanceAs (Decidable (((_ ∧ _) ∨ _ ∨ _) ∧ _ ∧ _))

instance (s : IrqState) : DecidablePred (OutsideWindow s)
  | .interrupt p => inferInstanceAs (Decidable (∀ n ∈ s.thread.irqList.lookup p, _ → _ ∧ _))
  | .irqEnable _ | .irqDisable _ | .initThreadEnv _ | .callReturn _ | .worker => isTrue trivial

/-! ## The invariant -/

structure Inv (s : IrqState) : Prop where
  refs : ∀ q ∈ s.thread.irqList.nodes, q.2.status ≠ wasmIrqStatusReleased → 0 ≤ q.2.refs ∧ q.2.refs ≤ intMax
  calling : ∀ p call todo, s.pc = .calling p call todo →
    ∀ n, s.thread.irqList.lookup p = some n → n.status ≠ wasmIrqStatusReleased → 0 < n.refs
  stopped : s.pc = .wait → s.thread.irqStatus = wasmIrqStop
  quiet : AboutToWait s → Quiet s ∨ 0 < s.thread.wasmIrqSem

theorem addInt_succ {x : Int} (h0 : 0 ≤ x) (h : x < intMax) : addInt x 1 = x + 1 := by
  unfold addInt intMax at *
  omega

theorem addInt_pred {x : Int} (h0 : 0 < x) (h : x ≤ intMax) : addInt x (-1) = x - 1 := by
  unfold addInt intMax at *
  omega

theorem not_aboutToWait {s : IrqState} (h : s.pc.passing = true) : ¬ AboutToWait s := by
  rintro (⟨hpc, -⟩ | hpc | hpc) <;> rw [hpc] at h <;> cases h

/-- A step that keeps the outstanding references in range and ends at a passing place. -/
theorem inv_of_passing {s : IrqState} (hr : ∀ q ∈ s.thread.irqList.nodes,
    q.2.status ≠ wasmIrqStatusReleased → 0 ≤ q.2.refs ∧ q.2.refs ≤ intMax)
    (hpc : s.pc.passing = true) : Inv s := by
  refine ⟨hr, fun p call todo h => ?_, fun h => ?_, fun h => absurd h (not_aboutToWait hpc)⟩
  · rw [h] at hpc
    cases hpc
  · rw [h] at hpc
    cases hpc

theorem inv_started {s : IrqState} (h : Started s) : Inv s := by
  refine inv_of_passing (fun q hq _ => ?_) (by rw [h.pc]; rfl)
  rw [h.refs q hq]
  decide

/-! ## Interrupts -/

/-- What the handler does to the nodes: one more reference at `p`. -/
theorem mem_wasmIrqHander {s : IrqState} {p : Addr} {n : WasmIrq} (hn : s.thread.irqList.lookup p = some n)
    {q : Addr × WasmIrq} (hq : q ∈ (wasmIrqHander s p n).thread.irqList.nodes) :
    (q.1 ≠ p ∧ q ∈ s.thread.irqList.nodes) ∨ (q.1 = p ∧ q.2 = { n with refs := addInt n.refs 1 }) := by
  have hl : (wasmIrqHander s p n).thread.irqList =
      s.thread.irqList.modify p fun m => { m with refs := addInt m.refs 1 } := by
    unfold wasmIrqHander
    simp only
    split_ifs <;> rfl
  rw [hl, NodeList.mem_modify] at hq
  rcases hq with hq | ⟨hp, m, hm, he⟩
  · exact .inl hq
  · rw [← NodeList.lookup_eq_some, hn] at hm
    cases hm
    exact .inr ⟨hp, he⟩

theorem wasmIrqHander_pc (s : IrqState) (p : Addr) (n : WasmIrq) :
    (wasmIrqHander s p n).pc = s.pc ∧
      (wasmIrqHander s p n).thread.irqExit = s.thread.irqExit ∧
      (wasmIrqHander s p n).thread.irqStatus = s.thread.irqStatus := by
  unfold wasmIrqHander
  simp only
  split_ifs <;> exact ⟨rfl, rfl, rfl⟩

/-- The handler posts exactly when it reads `WASM_IRQ_STOP`. -/
theorem wasmIrqHander_sem (s : IrqState) (p : Addr) (n : WasmIrq) :
    (wasmIrqHander s p n).thread.wasmIrqSem =
      if s.thread.irqStatus = wasmIrqStop then s.thread.wasmIrqSem + 1 else s.thread.wasmIrqSem := by
  unfold wasmIrqHander
  simp only
  split_ifs <;> rfl

theorem inv_interrupt {s : IrqState} {p : Addr} {n : WasmIrq} (hi : Inv s)
    (hn : s.thread.irqList.lookup p = some n) (hok : OutsideWindow s (.interrupt p)) :
    Inv (wasmIrqHander s p n) := by
  obtain ⟨hpc, hexit, hstatus⟩ := wasmIrqHander_pc s p n
  have hmem := NodeList.mem_of_lookup hn
  have hsucc : n.status ≠ wasmIrqStatusReleased → addInt n.refs 1 = n.refs + 1 := fun hs =>
    addInt_succ (hi.refs _ hmem hs).1 (hok n hn hs).1
  refine ⟨fun q hq hs => ?_, fun a call todo ha m hm hs => ?_, fun hw => ?_, fun hw => ?_⟩
  · rcases mem_wasmIrqHander hn hq with ⟨-, hq⟩ | ⟨-, he⟩
    · exact hi.refs q hq hs
    · rw [he] at hs ⊢
      have hlt := (hok n hn hs).1
      have hle := (hi.refs _ hmem hs).1
      have heq := hsucc hs
      simp only at hle heq ⊢
      omega
  · rw [hpc] at ha
    rcases mem_wasmIrqHander hn (NodeList.mem_of_lookup hm) with ⟨-, hq⟩ | ⟨rfl, he⟩
    · exact hi.calling a call todo ha m (NodeList.lookup_eq_some.2 hq) hs
    · simp only at he
      subst he
      have hlt := hi.calling _ call todo ha n hn hs
      have heq := hsucc hs
      simp only at heq ⊢
      omega
  · rw [hpc] at hw
    rw [hstatus]
    exact hi.stopped hw
  · rw [wasmIrqHander_sem]
    by_cases hst : s.thread.irqStatus = wasmIrqStop
    · rw [if_pos hst]
      exact .inr (Nat.succ_pos _)
    · rw [if_neg hst]
      have hw' : AboutToWait s := by
        unfold AboutToWait at hw ⊢
        rwa [hpc, hexit] at hw
      by_cases hsem : s.thread.wasmIrqSem = 0
      · -- in the window only a released node may fire, and `Quiet` does not speak of those
        rcases hi.quiet hw' with hq | hpos
        · refine .inl fun q hq' hs => ?_
          rcases mem_wasmIrqHander hn hq' with ⟨-, hq'⟩ | ⟨-, he⟩
          · exact hq q hq' hs
          · rw [he] at hs
            exact absurd ⟨hw', hst, hsem⟩ (hok n hn hs).2
        · omega
      · exact .inr (Nat.pos_of_ne_zero hsem)

/-! ## Steps of the worker -/

theorem inv_visitNode {s : IrqState} {p : Addr} {n : WasmIrq} (todo : List Addr) (hi : Inv s)
    (hn : s.thread.irqList.lookup p = some n) : Inv (visitNode s p n todo) := by
  unfold visitNode
  split_ifs with hrel hrefs
  · exact inv_of_passing (fun q hq hs => hi.refs q (NodeList.mem_erase.1 hq).2 hs) rfl
  · refine ⟨hi.refs, fun a call todo' h m hm hs => ?_, fun h => (by cases h), fun h => ?_⟩
    · cases h
      rw [hn] at hm
      cases hm
      exact hrefs
    · rcases h with ⟨h, -⟩ | h | h <;> cases h
  · exact inv_of_passing hi.refs rfl

theorem inv_callReturn {s : IrqState} {p : Addr} {call : WasmCall} {todo : List Addr}
    (result : Option (Option UInt32)) (hi : Inv s) (hpc : s.pc = .calling p call todo) :
    Inv (callReturn s p todo result) := by
  cases result with
  | none => exact inv_of_passing hi.refs rfl
  | some ret =>
    refine inv_of_passing (fun q hq hs => ?_) rfl
    rcases NodeList.mem_modify.1 hq with ⟨-, hq⟩ | ⟨-, m, hm, he⟩
    · exact hi.refs q hq hs
    · rw [he] at hs ⊢
      have hpos := hi.calling p call todo hpc m (NodeList.lookup_eq_some.2 hm) hs
      have hle := (hi.refs _ hm hs).2
      have heq := addInt_pred hpos hle
      simp only at hle heq ⊢
      omega

/-- A rescan that raises no flag saw no outstanding interrupt. -/
theorem quiet_of_rescan {s : IrqState} (hi : Inv s) (h : rescan s.thread.irqList = false) : Quiet s := by
  intro q hq hs
  have hle := (hi.refs q hq hs).1
  have hnot : ¬ 0 < q.2.refs := by simpa using List.any_eq_false.1 h q hq
  omega

theorem inv_workerStep {s t : IrqState} (hi : Inv s) (h : workerStep s = some t) : Inv t := by
  unfold workerStep at h
  split at h
  case h_1 =>
    split_ifs at h with hexit hnil <;> cases h
    · exact inv_of_passing hi.refs rfl
    · refine ⟨hi.refs, fun a call todo h => (by cases h), fun h => (by cases h), fun _ => .inl fun q hq => ?_⟩
      rw [hnil] at hq
      cases hq
    · exact inv_of_passing hi.refs rfl
  case h_2 =>
    cases h
    exact inv_of_passing hi.refs rfl
  case h_3 p todo hpc =>
    obtain ⟨n, hn, rfl⟩ := Option.map_eq_some_iff.1 h
    exact inv_visitNode todo hi hn
  case h_4 =>
    cases h
    refine ⟨hi.refs, fun a call todo h => (by cases h), fun h => (by cases h), fun hw => ?_⟩
    rcases hw with ⟨hw, -⟩ | hw | hw
    · have hq : Quiet s := quiet_of_rescan hi (WorkerPc.test.inj hw)
      exact .inl hq
    · cases hw
    · cases hw
  case h_5 flag hpc =>
    cases h
    cases hc : !flag && !s.thread.irqExit with
    | false => exact inv_of_passing hi.refs rfl
    | true =>
      simp only [Bool.and_eq_true, Bool.not_eq_true'] at hc
      have hw : AboutToWait s := .inl ⟨by rw [hpc, hc.1], hc.2⟩
      exact ⟨hi.refs, fun a call todo h => (by cases h), fun h => (by cases h), fun _ => hi.quiet hw⟩
  case h_6 hpc =>
    cases h
    exact ⟨hi.refs, fun a call todo h => (by cases h), fun _ => rfl, fun _ => hi.quiet (.inr (.inl hpc))⟩
  case h_7 =>
    split_ifs at h
    cases h
    exact inv_of_passing hi.refs rfl
  case h_8 =>
    cases h
    exact inv_of_passing hi.refs rfl
  all_goals cases h

theorem inv_step {s t : IrqState} {a : Action} (hi : Inv s) (hok : OutsideWindow s a)
    (h : step s a = some t) : Inv t := by
  cases a with
  | interrupt p =>
    obtain ⟨n, hn, -, rfl⟩ := step_interrupt h
    exact inv_interrupt hi hn hok
  | irqEnable irq => cases h; exact ⟨hi.refs, hi.calling, hi.stopped, hi.quiet⟩
  | irqDisable irq => cases h; exact ⟨hi.refs, hi.calling, hi.stopped, hi.quiet⟩
  | initThreadEnv ok =>
    obtain ⟨-, rfl⟩ := step_initThreadEnv h
    cases ok <;> exact inv_of_passing hi.refs rfl
  | callReturn result =>
    obtain ⟨p, call, todo, hpc, rfl⟩ := step_callReturn h
    exact inv_callReturn result hi hpc
  | worker => exact inv_workerStep hi h

/-! ## The wake-up -/

/-- In a run none of whose interrupts falls into the window, a worker blocked in `sem_wait` leaves
nothing outstanding. -/
theorem quiet_of_blocked {s₀ s : IrqState} {as : List Action} (h0 : Started s₀)
    (hm : Meets step OutsideWindow s₀ as) (h : exec step s₀ as = some s) (hb : Blocked s) : Quiet s := by
  have hi := exec_invariant (fun _ _ _ hi hok ht => inv_step hi hok ht) (inv_started h0) hm h
  rcases hi.quiet (.inr (.inr hb.1)) with hq | hpos
  · exact hq
  · rw [hb.2] at hpos
    exact absurd hpos (Nat.lt_irrefl 0)

/-- One node, whose interrupt fires while the worker sleeps. -/
def servedNode : IrqState where
  thread := ⟨false, 1, ⟨[(16, ⟨0, 5, 0, 3, 7⟩)], by decide⟩, wasmIrqStop, 0⟩
  pc := .start
  masked := []

def servedRun : List Action :=
  [.initThreadEnv true, .worker, .worker, .worker, .worker, .worker, .worker, .interrupt 16, .worker,
    .worker, .worker, .worker, .callReturn (some none), .worker, .worker, .worker, .worker]

theorem quiet_of_blocked_served :
    ∃ s, exec step servedNode servedRun = some s ∧ Blocked s ∧ Quiet s := by
  have h0 : Started servedNode := by constructor <;> decide
  have hm : Meets step OutsideWindow servedNode servedRun := by decide
  exact ⟨_, rfl, ⟨rfl, rfl⟩, quiet_of_blocked h0 hm rfl ⟨rfl, rfl⟩⟩

/-- Nodes of two interrupt lines. The second fires after the rescan of the pass that served the
first, before `WASM_IRQ_STOP` is stored. -/
def twoNodes : IrqState where
  thread := ⟨false, 1, ⟨[(16, ⟨0, 5, 0, 3, 7⟩), (32, ⟨0, 6, 0, 4, 8⟩)], by decide⟩, wasmIrqStop, 0⟩
  pc := .start
  masked := []

def lostRun : List Action :=
  [.initThreadEnv true, .worker, .worker, .worker, .worker, .worker, .worker, .worker, .interrupt 16,
    .worker, .worker, .worker, .worker, .callReturn (some none), .worker, .worker, .worker,
    .interrupt 32, .worker, .worker]

theorem lost_wakeup :
    ¬ ∀ (s₀ s : IrqState) (as : List Action), Started s₀ → exec step s₀ as = some s → Blocked s → Quiet s := by
  intro h
  have hq := h twoNodes _ lostRun (by constructor <;> decide) rfl ⟨rfl, rfl⟩
  exact absurd (hq (32, ⟨0, 6, 1, 4, 8⟩) (by decide) (by decide)) (by decide)

/-- Every unmasked interrupt of a non-released node in the window is lost: the next steps of the
worker put it to sleep with the interrupt outstanding. -/
theorem lost_of_inWindow {s : IrqState} {p : Addr} {n : WasmIrq} (hi : Inv s) (hw : InWindow s)
    (hn : s.thread.irqList.lookup p = some n) (hs : n.status ≠ wasmIrqStatusReleased)
    (hlt : n.refs < intMax) (hm : n.id ∉ s.masked) :
    ∃ as t, exec step s (.interrupt p :: as) = some t ∧ Blocked t ∧ ¬ Quiet t := by
  obtain ⟨hw, hst, hsem⟩ := hw
  have hfire : step s (.interrupt p) = some (wasmIrqHander s p n) := by
    simp only [step, hn]
    rw [if_neg hm]
  obtain ⟨hpc, hexit, hstatus⟩ := wasmIrqHander_pc s p n
  have hsem' : (wasmIrqHander s p n).thread.wasmIrqSem = 0 := by
    rw [wasmIrqHander_sem, if_neg hst, hsem]
  have hlist : (wasmIrqHander s p n).thread.irqList.lookup p = some { n with refs := addInt n.refs 1 } := by
    have : (wasmIrqHander s p n).thread.irqList =
        s.thread.irqList.modify p fun m => { m with refs := addInt m.refs 1 } := by
      unfold wasmIrqHander
      rw [if_neg hst]
    rw [this]
    exact NodeList.lookup_modify_self hn
  -- the state the worker falls asleep in
  let t : IrqState :=
    { wasmIrqHander s p n with
      thread := { (wasmIrqHander s p n).thread with irqStatus := wasmIrqStop }
      pc := .wait }
  have hquiet : ¬ Quiet t := by
    intro hq
    have h0 := hq _ (NodeList.mem_of_lookup hlist) hs
    have hge := (hi.refs _ (NodeList.mem_of_lookup hn) hs).1
    have heq := addInt_succ hge hlt
    simp only at h0 heq hge
    omega
  rcases hw with ⟨htest, hex⟩ | hstore | hwait
  · refine ⟨[.worker, .worker], t, ?_, ⟨rfl, hsem'⟩, hquiet⟩
    rw [exec_cons, hfire]
    rw [htest] at hpc
    rw [hex] at hexit
    simp [exec, step, workerStep, hpc, hexit, t]
  · refine ⟨[.worker], t, ?_, ⟨rfl, hsem'⟩, hquiet⟩
    rw [exec_cons, hfire]
    rw [hstore] at hpc
    simp [exec, step, workerStep, hpc, t]
  · exact absurd (hi.stopped hwait) hst

end VelaWasm.Irq
