/-
The worker when the interrupts cease. As long as its wasm handlers return, it comes to rest in `sem_wait` on a
semaphore at zero: in each pass it serves an interrupt, frees a released node or takes a post, or else it goes to
sleep. At rest every interrupt of the nodes that are left has been served, unless the worker was about to sleep on
unserved ones at the outset.
-/
import VelaWasm.Irq.LiveNodes
import VelaWasm.Lib.Rest
import Mathlib.Data.Prod.Lex
import Mathlib.Order.WellFounded

namespace VelaWasm.Irq

open VelaWasm.Run

/-! ## Steps -/

/-- A step of the worker in which what it calls succeeds. -/
inductive WorkerAction where
  | initThreadEnv
  | callReturn (ret : Option UInt32)
  | worker
  deriving DecidableEq, Repr

def WorkerAction.action : WorkerAction → Action
  | .initThreadEnv => .initThreadEnv true
  | .callReturn ret => .callReturn (some ret)
  | .worker => .worker

def drainStep (s : Accounting) (a : WorkerAction) : Option Accounting := accountingStep s (.bridge a.action)

/-- The bridge of the thread. -/
abbrev Accounting.irq (s : Accounting) : IrqState := ⟨s.th.thread, s.th.pc, s.masked⟩

/-! ## Definitions -/

/-- Every interrupt of a node in the list is served. -/
def Served (s : Accounting) : Prop := ∀ q ∈ s.nodes, s.completed q.1 = s.fired q.1

/-- The worker is about to sleep with interrupts unserved. -/
def Oversleeps (s : Accounting) : Prop := AboutToWait s.irq ∧ s.th.thread.wasmIrqSem = 0 ∧ ¬ Served s

/-- The nodes that a pass still works on. -/
def WorkerPc.ahead : WorkerPc → List Addr
  | .visit todo => todo
  | .calling p _ todo => p :: todo
  | _ => []

/-- They are nodes of the list, each once. -/
structure Ahead (pc : WorkerPc) (addrs : List Addr) : Prop where
  nodup : pc.ahead.Nodup
  subset : pc.ahead ⊆ addrs

/-- What is left to do for a node. -/
def WasmIrq.owed (n : WasmIrq) : ℕ := n.refs.toNat + if n.status = wasmIrqStatusReleased then 1 else 0

/-- What is left to do for the nodes, and the posts not yet taken. -/
def work (s : IrqState) : ℕ := s.thread.irqList.total WasmIrq.owed + s.thread.wasmIrqSem

/-- A node of `todo` has outstanding interrupts. -/
def hits (l : NodeList Addr WasmIrq) (todo : List Addr) : Bool :=
  l.nodes.any fun q => decide (0 < q.2.refs) && decide (q.1 ∈ todo)

/-- How many steps the worker takes at most before it gets some work done or sleeps: a pass that reaches no
outstanding interrupt is followed by one that does, if there is any. -/
def rank (s : IrqState) : ℕ :=
  let n := s.thread.irqList.nodes.length
  let busy := rescan s.thread.irqList
  match s.pc with
  | .wait | .exited | .calling .. => 0
  | .storeStop => 1
  | .test false => 2
  | .rescan => if busy then n + 3 else 3
  | .visit todo => if hits s.thread.irqList todo then todo.length else (if busy then n + 4 else 4) + todo.length
  | .loop => if busy then n + 1 else n + 5
  | .test true | .storeRun | .start => if busy then n + 2 else n + 6

/-! ## Progress -/

variable {s t : IrqState}

theorem hits_addrs (l : NodeList Addr WasmIrq) : hits l l.addrs = rescan l := by
  unfold hits rescan
  rw [Bool.eq_iff_iff, List.any_eq_true, List.any_eq_true]
  refine exists_congr fun q => and_congr_right fun hq => ?_
  have hmem : q.1 ∈ l.addrs := NodeList.mem_addrs.2 ⟨q.2, hq⟩
  simp [hmem]

theorem hits_nil (l : NodeList Addr WasmIrq) : hits l [] = false := by simp [hits]

/-- A node without outstanding interrupts is none of those that a pass hits. -/
theorem hits_cons {l : NodeList Addr WasmIrq} {p : Addr} {n : WasmIrq} (hn : l.lookup p = some n)
    (hrefs : ¬ 0 < n.refs) (todo : List Addr) : hits l (p :: todo) = hits l todo := by
  unfold hits
  rw [Bool.eq_iff_iff, List.any_eq_true, List.any_eq_true]
  refine exists_congr fun q => and_congr_right fun hq => ?_
  simp only [Bool.and_eq_true, decide_eq_true_eq, List.mem_cons]
  refine and_congr_right fun hpos => or_iff_right ?_
  rintro rfl
  exact hrefs (NodeList.eq_of_mem hq (NodeList.mem_of_lookup hn) ▸ hpos)

theorem owed_pos_of_released {n : WasmIrq} (h : n.status = wasmIrqStatusReleased) : 0 < n.owed := by
  unfold WasmIrq.owed
  rw [if_pos h]
  omega

/-- A wasm handler that returns has served an interrupt. -/
theorem work_callReturn {p : Addr} {n : WasmIrq} {todo : List Addr} (ret : Option UInt32)
    (hn : s.thread.irqList.lookup p = some n) (hpos : 0 < n.refs) (hmax : n.refs ≤ intMax) :
    work (callReturn s p todo (some ret)) < work s := by
  refine Nat.add_lt_add_right (NodeList.total_modify_lt hn ?_) _
  simp only [WasmIrq.owed, addInt_pred hpos hmax]
  omega

/-- The visit of a node frees it, calls its wasm handler, or leaves the rest of the pass. -/
theorem progress_visitNode {p : Addr} {n : WasmIrq} {todo : List Addr} (hpc : s.pc = .visit (p :: todo))
    (hn : s.thread.irqList.lookup p = some n) :
    toLex (work (visitNode s p n todo), rank (visitNode s p n todo)) < toLex (work s, rank s) := by
  unfold visitNode
  split_ifs with hrel hrefs
  · exact Prod.Lex.toLex_lt_toLex.2 (.inl (Nat.add_lt_add_right
      (NodeList.total_erase_lt hn (owed_pos_of_released hrel)) _))
  · refine Prod.Lex.toLex_lt_toLex.2 (.inr ⟨rfl, ?_⟩)
    simp only [rank, hpc, List.length_cons]
    split_ifs <;> omega
  · refine Prod.Lex.toLex_lt_toLex.2 (.inr ⟨rfl, ?_⟩)
    simp only [rank, hpc, hits_cons hn hrefs, List.length_cons]
    split_ifs <;> omega

theorem progress_worker (he : s.thread.irqExit = false) (h : workerStep s = some t) :
    toLex (work t, rank t) < toLex (work s, rank s) := by
  unfold workerStep at h
  split at h
  case h_1 hpc =>
    rw [if_neg (by simp [he])] at h
    split_ifs at h with hnil <;> cases h <;> refine Prod.Lex.toLex_lt_toLex.2 (.inr ⟨rfl, ?_⟩)
    · simp [rank, hpc, rescan, hnil]
    · have hlen : s.thread.irqList.addrs.length = s.thread.irqList.nodes.length := List.length_map _
      simp only [rank, hpc, hits_addrs, hlen]
      split_ifs <;> omega
  case h_2 hpc =>
    cases h
    refine Prod.Lex.toLex_lt_toLex.2 (.inr ⟨rfl, ?_⟩)
    simp only [rank, hpc, hits_nil]
    split_ifs <;> simp_all
  case h_3 p todo hpc =>
    obtain ⟨n, hn, rfl⟩ := Option.map_eq_some_iff.1 h
    exact progress_visitNode hpc hn
  case h_4 hpc =>
    cases h
    refine Prod.Lex.toLex_lt_toLex.2 (.inr ⟨rfl, ?_⟩)
    simp only [rank, hpc]
    cases rescan s.thread.irqList <;> simp
  case h_5 flag hpc =>
    cases h
    refine Prod.Lex.toLex_lt_toLex.2 (.inr ⟨rfl, ?_⟩)
    cases flag
    · simp [rank, hpc, he]
    · simp only [rank, hpc]
      split_ifs <;> simp_all
  case h_6 hpc =>
    cases h
    refine Prod.Lex.toLex_lt_toLex.2 (.inr ⟨rfl, ?_⟩)
    simp [rank, hpc]
  case h_7 hpc =>
    split_ifs at h with hsem
    cases h
    refine Prod.Lex.toLex_lt_toLex.2 (.inl ?_)
    simp only [work]
    omega
  case h_8 hpc =>
    cases h
    refine Prod.Lex.toLex_lt_toLex.2 (.inr ⟨rfl, ?_⟩)
    simp only [rank, hpc]
    split_ifs <;> omega
  all_goals cases h

/-- Every step of a worker that is not told to exit makes progress. -/
theorem progress_step {a : WorkerAction} (he : s.thread.irqExit = false)
    (hcall : ∀ p call todo, s.pc = .calling p call todo →
      ∃ n, s.thread.irqList.lookup p = some n ∧ 0 < n.refs ∧ n.refs ≤ intMax)
    (h : step s a.action = some t) : toLex (work t, rank t) < toLex (work s, rank s) := by
  cases a with
  | initThreadEnv =>
    obtain ⟨hpc, rfl⟩ := step_initThreadEnv h
    refine Prod.Lex.toLex_lt_toLex.2 (.inr ⟨rfl, ?_⟩)
    simp only [rank, hpc, if_true]
    split_ifs <;> omega
  | callReturn ret =>
    obtain ⟨p, call, todo, hpc, rfl⟩ := step_callReturn h
    obtain ⟨n, hn, hpos, hmax⟩ := hcall p call todo hpc
    exact Prod.Lex.toLex_lt_toLex.2 (.inl (work_callReturn ret hn hpos hmax))
  | worker => exact progress_worker he h

/-! ## The pass -/

theorem ahead_nil {pc : WorkerPc} (h : pc.ahead = []) (addrs : List Addr) : Ahead pc addrs :=
  ⟨h ▸ List.nodup_nil, h ▸ List.nil_subset _⟩

theorem ahead_visitNode {p : Addr} {n : WasmIrq} {todo : List Addr} (hi : Ahead s.pc s.thread.irqList.addrs)
    (hpc : s.pc = .visit (p :: todo)) :
    Ahead (visitNode s p n todo).pc (visitNode s p n todo).thread.irqList.addrs := by
  obtain ⟨hnodup, hsub⟩ := hi
  rw [hpc] at hnodup hsub
  obtain ⟨hp, htodo⟩ := List.nodup_cons.1 hnodup
  unfold visitNode
  split_ifs
  · -- the node that is freed is none of the others
    refine ⟨htodo, fun q hq => ?_⟩
    have hne : q ≠ p := fun he => hp (he ▸ hq)
    rw [NodeList.addrs_erase]
    exact List.mem_filter.2 ⟨hsub (List.mem_cons_of_mem p hq), decide_eq_true hne⟩
  · exact ⟨hnodup, hsub⟩
  · exact ⟨htodo, fun q hq => hsub (List.mem_cons_of_mem p hq)⟩

theorem ahead_step {a : Action} (hi : Ahead s.pc s.thread.irqList.addrs) (h : step s a = some t) :
    Ahead t.pc t.thread.irqList.addrs := by
  cases a with
  | interrupt p =>
    rw [addrs_step h]
    obtain ⟨n, -, -, rfl⟩ := step_interrupt h
    rw [(wasmIrqHander_pc s p n).1]
    exact ⟨hi.nodup, fun q hq => List.mem_filter.2 ⟨hi.subset hq, rfl⟩⟩
  | irqEnable irq | irqDisable irq =>
    cases h
    exact hi
  | initThreadEnv ok =>
    obtain ⟨-, rfl⟩ := step_initThreadEnv h
    exact ahead_nil (by cases ok <;> rfl) _
  | callReturn result =>
    obtain ⟨p, call, todo, hpc, rfl⟩ := step_callReturn h
    cases result with
    | none => exact ahead_nil rfl _
    | some ret =>
      rw [hpc] at hi
      refine ⟨(List.nodup_cons.1 hi.nodup).2, fun q hq => ?_⟩
      simp only [callReturn, NodeList.addrs_modify]
      exact hi.subset (List.mem_cons_of_mem p hq)
  | worker =>
    rcases workerStep_cases h with ⟨p, todo, n, hpc, hn, rfl⟩ | ⟨hlist, hvisit, -⟩
    · exact ahead_visitNode hi hpc
    · simp only [step, workerStep] at h
      rw [hlist]
      split at h
      case h_1 =>
        split_ifs at h <;> cases h
        · exact ahead_nil rfl _
        · exact ahead_nil rfl _
        · exact ⟨s.thread.irqList.nodup, List.Subset.refl _⟩
      case h_3 p todo hpc => exact absurd hpc (hvisit p todo)
      case h_5 flag hpc =>
        cases h
        exact ahead_nil (by cases !flag && !s.thread.irqExit <;> rfl) _
      case h_7 =>
        split_ifs at h
        cases h
        exact ahead_nil rfl _
      case h_9 => cases h
      case h_10 => cases h
      case h_11 => cases h
      all_goals
        cases h
        exact ahead_nil rfl _

/-- A new node is reached by a pass that is not at its last node. -/
theorem ahead_concat {pc : WorkerPc} {addrs : List Addr} {node : Addr} (hi : Ahead pc addrs) (hnew : node ∉ addrs) :
    Ahead (pc.concat node) (addrs ++ [node]) := by
  have hadd : ∀ todo : List Addr, todo.Nodup → todo ⊆ addrs →
      (todo ++ [node]).Nodup ∧ todo ++ [node] ⊆ addrs ++ [node] := by
    intro todo hnodup hsub
    refine ⟨List.nodup_append.2 ⟨hnodup, List.nodup_singleton node, fun q hq r hr => ?_⟩, ?_⟩
    · rw [List.mem_singleton.1 hr]
      rintro rfl
      exact hnew (hsub hq)
    · exact List.append_subset.2 ⟨fun q hq => List.mem_append_left _ (hsub hq), List.subset_append_right _ _⟩
  unfold WorkerPc.concat
  split
  · obtain ⟨hnodup, hsub⟩ := hadd _ hi.nodup hi.subset
    exact ⟨hnodup, hsub⟩
  · obtain ⟨hnodup, hsub⟩ := hadd _ hi.nodup hi.subset
    exact ⟨hnodup, hsub⟩
  · exact ⟨hi.nodup, fun q hq => List.mem_append_left _ (hi.subset hq)⟩

variable {u v : Accounting}

theorem ahead_accounting {a : AccountingAction} (hi : Ahead u.th.pc u.th.addrs) (h : accountingStep u a = some v) :
    Ahead v.th.pc v.th.addrs := by
  cases a with
  | bridge a =>
    obtain ⟨w, hw, rfl⟩ := Option.map_eq_some_iff.1 h
    exact @ahead_step u.irq w a hi hw
  | exit =>
    simp only [accountingStep] at h
    split_ifs at h with hj
    obtain ⟨w, hw, rfl⟩ := Option.map_eq_some_iff.1 h
    obtain ⟨hlist, hpc⟩ := exit_nodes hw hj
    simp only [IrqThread.addrs, IrqThread.after, hlist, hpc]
    exact hi
  | register irq index arg node =>
    simp only [accountingStep] at h
    split at h
    · rename_i th hth
      cases h
      obtain ⟨hnew, haddrs, -⟩ := wasmInterruptRegister_ok hth
      rw [(register_nodes hth).2.2, haddrs]
      exact ahead_concat hi hnew
    · cases h
      exact hi
  | unregister irq =>
    cases h
    simp only [IrqThread.addrs, wasmInterruptUnregister]
    split_ifs
    · exact hi
    · rw [NodeList.addrs_map]
      exact hi
    · rw [NodeList.addrs_map]
      exact hi

/-! ## The invariant -/

/-- The worker runs and is not told to exit. -/
structure Draining (s : Accounting) : Prop where
  booked : Booked s
  ahead : Ahead s.th.pc s.th.addrs
  exit : s.th.thread.irqExit = false
  pc : s.th.pc ≠ .exited

theorem runs_worker (he : s.thread.irqExit = false) (h : workerStep s = some t) :
    t.thread.irqExit = false ∧ t.pc ≠ .exited := by
  unfold workerStep at h
  split at h
  case h_1 =>
    rw [if_neg (by simp [he])] at h
    split_ifs at h <;> cases h <;> exact ⟨he, by simp⟩
  case h_3 p todo hpc =>
    obtain ⟨n, -, rfl⟩ := Option.map_eq_some_iff.1 h
    unfold visitNode
    split_ifs <;> exact ⟨he, by simp⟩
  case h_5 flag hpc =>
    cases h
    refine ⟨he, ?_⟩
    simp only
    split_ifs <;> simp
  case h_7 =>
    split_ifs at h
    cases h
    exact ⟨he, by simp⟩
  case h_9 => cases h
  case h_10 => cases h
  case h_11 => cases h
  all_goals
    cases h
    exact ⟨he, by simp⟩

theorem runs_step {a : WorkerAction} (he : s.thread.irqExit = false) (h : step s a.action = some t) :
    t.thread.irqExit = false ∧ t.pc ≠ .exited := by
  cases a with
  | initThreadEnv =>
    obtain ⟨-, rfl⟩ := step_initThreadEnv h
    exact ⟨he, by simp⟩
  | callReturn ret =>
    obtain ⟨p, call, todo, -, rfl⟩ := step_callReturn h
    exact ⟨he, by simp [callReturn]⟩
  | worker => exact runs_worker he h

theorem fires_action (a : WorkerAction) : fires a.action = none := by cases a <;> rfl

theorem bump_none (counts : Addr → ℕ) : bump none counts = counts := by
  funext p
  simp [bump]

/-- A step of the worker is one of the bridge, and no interrupt fires. -/
theorem of_drainStep {a : WorkerAction} (h : drainStep u a = some v) :
    step u.irq a.action = some v.irq ∧ v.fired = u.fired ∧
      v.completed = bump (completes u.th.pc a.action) u.completed := by
  obtain ⟨w, hw, rfl⟩ := Option.map_eq_some_iff.1 h
  refine ⟨hw, ?_, rfl⟩
  simp only [fires_action, bump_none]

theorem bounded_action (s : Accounting) (a : WorkerAction) : Bounded s (.bridge a.action) := by
  simp [Bounded, fires_action]

theorem draining_step {a : WorkerAction} (hi : Draining u) (h : drainStep u a = some v) : Draining v := by
  obtain ⟨hstep, -⟩ := of_drainStep h
  obtain ⟨hexit, hpc⟩ := runs_step hi.exit hstep
  exact ⟨booked_step hi.booked (bounded_action u a) h, ahead_accounting hi.ahead h, hexit, hpc⟩

theorem draining_progress {a : WorkerAction} (hi : Draining u) (h : drainStep u a = some v) :
    toLex (work v.irq, rank v.irq) < toLex (work u.irq, rank u.irq) := by
  refine progress_step hi.exit (fun p call todo hpc => ?_) (of_drainStep h).1
  obtain ⟨n, hn, hpos⟩ := hi.booked.calling p call todo hpc
  exact ⟨n, NodeList.lookup_eq_some.2 hn, hpos, (hi.booked.refs _ hn).2.2⟩

/-! ## Rest -/

/-- A worker that cannot go on by itself has ended or is asleep. -/
theorem exited_or_blocked (ha : Ahead s.pc s.thread.irqList.addrs) (hstart : s.pc ≠ .start)
    (hcall : ∀ p call todo, s.pc ≠ .calling p call todo) (h : workerStep s = none) : s.pc = .exited ∨ Blocked s := by
  cases hpc : s.pc with
  | start => exact absurd hpc hstart
  | calling p call todo => exact absurd hpc (hcall p call todo)
  | exited => exact .inl rfl
  | wait =>
    refine .inr ⟨hpc, ?_⟩
    by_contra hsem
    simp [workerStep, hpc, hsem] at h
  | visit todo =>
    cases todo with
    | nil => simp [workerStep, hpc] at h
    | cons p todo =>
      have hmem := ha.subset (by rw [hpc]; exact List.mem_cons_self)
      obtain ⟨n, hn⟩ := NodeList.mem_addrs.1 hmem
      simp [workerStep, hpc, NodeList.lookup_eq_some.2 hn] at h
  | loop =>
    simp only [workerStep, hpc] at h
    split_ifs at h
  | _ => simp [workerStep, hpc] at h

/-- The worker rests only in `sem_wait`. -/
theorem blocked_of_atRest (hi : Draining u) (hr : AtRest drainStep u) : Blocked u.irq := by
  have hstep : ∀ a : WorkerAction, step u.irq a.action = none := fun a => Option.map_eq_none_iff.1 (hr a)
  refine (exited_or_blocked hi.ahead (fun (hpc : u.th.pc = _) => ?_)
    (fun p call todo (hpc : u.th.pc = _) => ?_) (hstep .worker)).resolve_left hi.pc
  · exact absurd (hstep .initThreadEnv) (by simp [WorkerAction.action, step, hpc])
  · exact absurd (hstep (.callReturn none)) (by simp [WorkerAction.action, step, hpc])

/-! ## Sleeping over interrupts -/

theorem not_oversleeps {pc : WorkerPc} (hpc : u.th.pc = pc) (h : pc.passing = true) : ¬ Oversleeps u := by
  subst hpc
  exact fun ho => @not_aboutToWait u.irq h ho.1

/-- The worker's last test before it sleeps is after a rescan, or after it has found the list empty. -/
theorem oversleeps_worker {w : IrqState} (hi : Draining u) (h : workerStep u.irq = some w)
    (hv : v = ⟨u.th.after (.bridge .worker) ⟨w, u.th.ptIrq, u.th.exitPc⟩, w.masked, u.fired, u.completed⟩) :
    Oversleeps v ↔ Oversleeps u := by
  unfold workerStep at h
  split at h
  case h_1 hpc =>
    have hu : ¬ Oversleeps u := not_oversleeps hpc rfl
    refine iff_of_false ?_ hu
    split_ifs at h with hexit hnil <;> cases h <;> subst hv
    · exact not_oversleeps rfl rfl
    · rintro ⟨-, -, hs⟩
      refine hs fun q hq => ?_
      simp only [Accounting.nodes, IrqThread.after, show u.th.thread.irqList.nodes = [] from hnil] at hq
      cases hq
    · exact not_oversleeps rfl rfl
  case h_2 hpc =>
    cases h
    subst hv
    exact iff_of_false (not_oversleeps rfl rfl) (not_oversleeps hpc rfl)
  case h_3 p todo hpc =>
    obtain ⟨n, -, rfl⟩ := Option.map_eq_some_iff.1 h
    subst hv
    refine iff_of_false ?_ (not_oversleeps hpc rfl)
    unfold visitNode
    rintro ⟨hw, -⟩
    split_ifs at hw <;> rcases hw with ⟨hw, -⟩ | hw | hw <;> cases hw
  case h_4 hpc =>
    cases h
    subst hv
    refine iff_of_false ?_ (not_oversleeps hpc rfl)
    rintro ⟨hw, -, hs⟩
    rcases hw with ⟨hw, -⟩ | hw | hw
    · exact hs ((exact_of_booked hi.booked).served hpc (WorkerPc.test.inj hw))
    · cases hw
    · cases hw
  case h_5 flag hpc =>
    cases h
    subst hv
    have hexit := hi.exit
    cases flag with
    | true => exact iff_of_false (not_oversleeps rfl rfl) (not_oversleeps hpc rfl)
    | false =>
      refine and_congr (iff_of_true (.inr (.inl ?_)) (.inl ⟨hpc, hexit⟩)) Iff.rfl
      simp [IrqThread.after, hexit]
  case h_6 hpc =>
    cases h
    subst hv
    exact and_congr (iff_of_true (.inr (.inr rfl)) (.inr (.inl hpc))) Iff.rfl
  case h_7 hpc =>
    split_ifs at h with hsem
    cases h
    subst hv
    exact iff_of_false (not_oversleeps rfl rfl) fun ho => hsem ho.2.1
  case h_8 hpc =>
    cases h
    subst hv
    exact iff_of_false (not_oversleeps rfl rfl) (not_oversleeps hpc rfl)
  all_goals cases h

theorem oversleeps_step {a : WorkerAction} (hi : Draining u) (h : drainStep u a = some v) :
    Oversleeps v ↔ Oversleeps u := by
  obtain ⟨w, hw, rfl⟩ := Option.map_eq_some_iff.1 h
  cases a with
  | initThreadEnv =>
    obtain ⟨hpc, rfl⟩ := step_initThreadEnv hw
    exact iff_of_false (not_oversleeps rfl rfl) (not_oversleeps hpc rfl)
  | callReturn ret =>
    obtain ⟨p, call, todo, hpc, rfl⟩ := step_callReturn hw
    refine iff_of_false (not_oversleeps rfl rfl) fun ho => ?_
    rcases ho.1 with ⟨hw, -⟩ | hw | hw <;> cases hpc.symm.trans hw
  | worker => exact oversleeps_worker hi hw rfl

/-! ## Runs -/

/-- What a run of the worker keeps. -/
structure Follows (u v : Accounting) : Prop where
  draining : Draining v
  fired : v.fired = u.fired
  live : ∀ q ∈ u.nodes, q.2.Live → ∃ n, (q.1, n) ∈ v.nodes ∧ n.Live
  oversleeps : Oversleeps v ↔ Oversleeps u

/-- A step frees no live node. -/
theorem live_step {a : Action} (h : step s a = some t) {q : Addr × WasmIrq} (hq : q ∈ s.thread.irqList.nodes)
    (hl : q.2.Live) : ∃ n, (q.1, n) ∈ t.thread.irqList.nodes ∧ n.Live := by
  have hkeep : sweeps s a ≠ some q.1 := fun hsweeps => by
    obtain ⟨-, n, hn, hrel⟩ := sweeps_eq_some.1 hsweeps
    rw [NodeList.lookup_of_mem hq] at hn
    cases hn
    exact hrel hl
  have htag : tag q ∈ t.tags := by
    rw [tags_step h]
    exact List.mem_filter.2 ⟨List.mem_map.2 ⟨q, hq, rfl⟩, decide_eq_true hkeep⟩
  obtain ⟨n, hn, he⟩ := mem_tags htag
  have hstatus : q.2.status = n.status := congrArg (·.2.2) he
  refine ⟨n, NodeList.mem_of_lookup hn, fun hrel => hl ?_⟩
  rw [hstatus, hrel]

theorem follows_step {a : WorkerAction} {w : Accounting} (hi : Follows u v) (h : drainStep v a = some w) :
    Follows u w := by
  obtain ⟨hstep, hfired, -⟩ := of_drainStep h
  refine ⟨draining_step hi.draining h, hfired.trans hi.fired, fun q hq hl => ?_,
    (oversleeps_step hi.draining h).trans hi.oversleeps⟩
  obtain ⟨n, hn, hnl⟩ := hi.live q hq hl
  exact @live_step v.irq w.irq a.action hstep (q.1, n) hn hnl

/-- In every state of a run with fewer than 2^31 interrupts of a node outstanding, as long as the worker runs and
is not told to exit: once the interrupts cease and the wasm handlers return, the worker comes to rest in `sem_wait`,
and has then served every interrupt unless it was about to oversleep some. -/
theorem drained_iff {ptIrq : Int32} {execEnv : Addr} {as : List AccountingAction}
    (h : exec accountingStep (.start ptIrq execEnv) as = some u)
    (hb : Meets accountingStep Bounded (.start ptIrq execEnv) as) (he : u.th.thread.irqExit = false)
    (hpc : u.th.pc ≠ .exited) :
    ¬ Endless drainStep u ∧ ∀ bs v, exec drainStep u bs = some v → AtRest drainStep v →
      Blocked v.irq ∧ v.fired = u.fired ∧ (∀ q ∈ u.nodes, q.2.Live → q.1 ∈ v.th.addrs) ∧
        (Served v ↔ ¬ Oversleeps u) := by
  have hstart : Booked (.start ptIrq execEnv) ∧ Ahead (Accounting.start ptIrq execEnv).th.pc
      (Accounting.start ptIrq execEnv).th.addrs := ⟨booked_start ptIrq execEnv, ahead_nil rfl _⟩
  obtain ⟨hbooked, hahead⟩ := exec_invariant (I := fun s => Booked s ∧ Ahead s.th.pc s.th.addrs)
    (fun _ _ _ hi hok ht => ⟨booked_step hi.1 hok ht, ahead_accounting hi.2 ht⟩) hstart hb h
  have hi : Draining u := ⟨hbooked, hahead, he, hpc⟩
  refine ⟨not_endless (fun _ _ _ => draining_step) (fun _ _ _ => draining_progress) hi, fun bs v hv hr => ?_⟩
  have hf : Follows u v := exec_preserves (fun _ _ _ => follows_step)
    ⟨hi, rfl, fun q hq hl => ⟨q.2, hq, hl⟩, Iff.rfl⟩ hv
  have hblocked := blocked_of_atRest hf.draining hr
  refine ⟨hblocked, hf.fired, fun q hq hl => ?_, ?_⟩
  · obtain ⟨n, hn, -⟩ := hf.live q hq hl
    exact NodeList.mem_addrs.2 ⟨n, hn⟩
  · rw [← hf.oversleeps, Oversleeps]
    have hw : AboutToWait v.irq := .inr (.inr hblocked.1)
    simp [hw, show v.th.thread.wasmIrqSem = 0 from hblocked.2]

/-- The second interrupt of a node has fired during the call for the first. -/
def interruptedTwice : List AccountingAction :=
  [.register 3 5 7 0x2000, .bridge (.initThreadEnv true), .bridge (.interrupt 0x2000), .bridge .worker,
    .bridge .worker, .bridge (.irqEnable 3), .bridge (.interrupt 0x2000)]

theorem drained_interruptedTwice :
    ¬ Endless drainStep ((exec accountingStep (.start 4 0x1000) interruptedTwice).get (by decide)) :=
  (@drained_iff _ 4 0x1000 interruptedTwice (by simp) (by decide) (by decide) (by decide)).1

end VelaWasm.Irq
