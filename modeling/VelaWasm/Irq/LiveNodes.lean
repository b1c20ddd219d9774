/-
The live nodes of an enabled thread, those that are not released. A released node stays in its list until the worker's
sweep visits it, and its line can be registered again meanwhile; in any order of registrations, releases and steps of
the sweep there is at most one live node of a line.
-/
import VelaWasm.Irq.Accounting

namespace VelaWasm.Irq

open VelaWasm.Run

/-! ## Steps -/

def WasmIrq.Live (n : WasmIrq) : Prop := n.status ≠ wasmIrqStatusReleased

instance : DecidablePred WasmIrq.Live := fun n => inferInstanceAs (Decidable (n.status ≠ _))

/-- An enabled thread and the masks of the controller. -/
structure NodeState where
  th : IrqThread
  masked : List UInt32

inductive NodeAction where
  /-- `wasm_interrupt_register`, with what its `malloc` returns -/
  | register (irq index arg : UInt32) (node : Option Addr)
  /-- `wasm_interrupt_unregister` -/
  | unregister (irq : UInt32)
  /-- a step of the worker, an interrupt or a mask -/
  | bridge (a : Action)
  deriving DecidableEq, Repr

/-- What `malloc` may return for a node: no address of one that is in use. -/
def IrqThread.MayMalloc (th : IrqThread) (node : Option Addr) : Prop := ∀ p ∈ node, p ∉ th.addrs

instance (th : IrqThread) : DecidablePred th.MayMalloc := fun _ => Option.decidableForallMem _

def nodeStep (s : NodeState) : NodeAction → Option NodeState
  | .register irq index arg node =>
    if s.th.MayMalloc node then
      match wasmInterruptRegister s.th irq index arg node with
      | .ok th => some { s with th }
      | .error _ => some s
    else none
  | .unregister irq => some { s with th := wasmInterruptUnregister s.th irq }
  | .bridge a => (step ⟨s.th.thread, s.th.pc, s.masked⟩ a).map fun u =>
      ⟨s.th.after (.bridge a) ⟨u, s.th.ptIrq, s.th.exitPc⟩, u.masked⟩

/-- A thread that has just been created. -/
def NodeState.start (ptIrq : Int32) (execEnv : Addr) : NodeState := ⟨wasmIrqThreadCreate ptIrq execEnv, []⟩

/-- The nodes of the thread, in list order. -/
def IrqThread.nodes (th : IrqThread) : List (Addr × WasmIrq) := th.thread.irqList.nodes

/-- A live node of a line is in the list. -/
def IrqThread.HasLive (th : IrqThread) (irq : UInt32) : Prop := ∃ q ∈ th.nodes, q.2.Live ∧ q.2.id = irq

instance (th : IrqThread) : DecidablePred th.HasLive := fun _ => List.decidableBEx _ _

/-! ## Sweeps -/

/-- The node that a step of the sweep visits. -/
def visits (s : IrqState) : Action → Option Addr
  | .worker =>
    match s.pc with
    | .visit (p :: _) => some p
    | _ => none
  | _ => none

/-- The nodes that a run of the bridge visits. -/
def visited : IrqState → List Action → List Addr
  | _, [] => []
  | s, a :: as =>
    (visits s a).toList ++
      match step s a with
      | none => []
      | some t => visited t as

/-- What a step of the bridge does not change of a node: its address, its line and its status. -/
def tag (q : Addr × WasmIrq) : Addr × UInt32 × Int := (q.1, q.2.id, q.2.status)

def IrqState.tags (s : IrqState) : List (Addr × UInt32 × Int) := s.thread.irqList.nodes.map tag

variable {s t : IrqState} {a : Action}

theorem tags_modify (l : NodeList Addr WasmIrq) (p : Addr) (f : WasmIrq → WasmIrq)
    (hid : ∀ n, (f n).id = n.id) (hstatus : ∀ n, (f n).status = n.status) :
    (l.modify p f).nodes.map tag = l.nodes.map tag := by
  unfold NodeList.modify
  rw [List.map_map]
  refine List.map_congr_left fun q _ => ?_
  simp only [Function.comp]
  split_ifs
  · simp only [tag, hid, hstatus]
  · rfl

/-- A node that a step frees was visited, and is released. -/
theorem sweeps_eq_some {p : Addr} : sweeps s a = some p ↔
    visits s a = some p ∧ ∃ n, s.thread.irqList.lookup p = some n ∧ ¬ n.Live := by
  cases a with
  | worker =>
    cases hpc : s.pc with
    | visit todo =>
      cases todo with
      | nil => simp [sweeps, visits, hpc]
      | cons r todo =>
        simp only [sweeps, visits, hpc, Option.bind_eq_some_iff]
        constructor
        · rintro ⟨n, hn, hrel⟩
          split_ifs at hrel with hr
          cases hrel
          exact ⟨rfl, n, hn, not_not.2 hr⟩
        · rintro ⟨⟨⟩, n, hn, hrel⟩
          exact ⟨n, hn, if_pos (not_not.1 hrel)⟩
    | _ => simp [sweeps, visits, hpc]
  | _ => exact iff_of_false (by simp [sweeps]) (by simp [visits])

/-- A step of the bridge frees what its sweep frees and keeps the other nodes in order. -/
theorem tags_step (h : step s a = some t) :
    t.tags = s.tags.filter fun k => decide (sweeps s a ≠ some k.1) := by
  have hkeep : sweeps s a = none → (s.tags.filter fun k => decide (sweeps s a ≠ some k.1)) = s.tags := by
    intro hnone
    simp [hnone]
  cases a with
  | interrupt p =>
    obtain ⟨n, -, -, rfl⟩ := step_interrupt h
    rw [hkeep rfl]
    unfold wasmIrqHander
    simp only
    split_ifs <;> exact tags_modify _ _ _ (fun _ => rfl) fun _ => rfl
  | irqEnable irq | irqDisable irq =>
    cases h
    rw [hkeep rfl]
    rfl
  | initThreadEnv ok =>
    obtain ⟨-, rfl⟩ := step_initThreadEnv h
    rw [hkeep rfl]
    rfl
  | callReturn result =>
    obtain ⟨p, call, todo, -, rfl⟩ := step_callReturn h
    rw [hkeep rfl]
    cases result with
    | none => rfl
    | some ret => exact tags_modify _ _ _ (fun _ => rfl) fun _ => rfl
  | worker =>
    rcases workerStep_cases h with ⟨p, todo, n, hpc, hn, rfl⟩ | ⟨hlist, hvisit, -⟩
    · unfold visitNode
      split_ifs with hrel hrefs
      · -- the released node is unlinked
        have hsweeps : sweeps s .worker = some p := by simp [sweeps, hpc, hn, hrel]
        unfold IrqState.tags NodeList.erase
        rw [hsweeps, List.filter_map]
        refine congrArg (List.map tag) (List.filter_congr fun q _ => ?_)
        exact decide_eq_decide.2 (by simp [tag, eq_comm])
      · rw [hkeep (by simp [sweeps, hpc, hn, hrel])]
        rfl
      · rw [hkeep (by simp [sweeps, hpc, hn, hrel])]
        rfl
    · have hnone : sweeps s .worker = none := by simp only [sweeps]
      rw [hkeep hnone]
      unfold IrqState.tags
      rw [hlist]

theorem mem_tags {k : Addr × UInt32 × Int} (h : k ∈ s.tags) :
    ∃ n, s.thread.irqList.lookup k.1 = some n ∧ k = tag (k.1, n) := by
  obtain ⟨q, hq, rfl⟩ := List.mem_map.1 h
  exact ⟨q.2, NodeList.lookup_of_mem hq, rfl⟩

/-- A run of the bridge frees the released nodes that it visits and keeps the others in order. -/
theorem tags_run {as : List Action} (h : exec step s as = some t) :
    t.tags = s.tags.filter fun k => decide (¬ (k.1 ∈ visited s as ∧ k.2.2 = wasmIrqStatusReleased)) := by
  induction as generalizing s with
  | nil =>
    cases h
    simp [visited]
  | cons a as ih =>
    obtain ⟨u, hu, h⟩ := exec_cons_some step h
    rw [ih h, tags_step hu, List.filter_filter]
    refine List.filter_congr fun k hk => ?_
    obtain ⟨n, hn, hkn⟩ := mem_tags hk
    have hstatus : k.2.2 = n.status := congrArg (·.2.2) hkn
    -- the step frees the node of `k` exactly when it visits it and it is released
    have hsweeps : sweeps s a = some k.1 ↔ visits s a = some k.1 ∧ k.2.2 = wasmIrqStatusReleased := by
      rw [sweeps_eq_some, hn, hstatus]
      simp [WasmIrq.Live]
    have hvisited : visited s (a :: as) = (visits s a).toList ++ visited u as := by rw [visited, hu]
    rw [hvisited, ← Bool.decide_and]
    refine decide_eq_decide.2 ?_
    rw [ne_eq, hsweeps, List.mem_append, Option.mem_toList]
    tauto

/-! ## A pass -/

/-- The nodes that are left to visit in a pass. -/
def WorkerPc.left : WorkerPc → Option (List Addr)
  | .visit todo | .calling _ _ todo => some todo
  | _ => none

/-- A step in a pass visits the next node or none, and the pass ends when there is none left. -/
theorem left_step {todo : List Addr} (hl : s.pc.left = some todo) (ha : a ≠ .callReturn none)
    (h : step s a = some t) :
    (∃ todo', t.pc.left = some todo' ∧ todo = (visits s a).toList ++ todo') ∨
      (todo = [] ∧ visits s a = none ∧ t.pc = .rescan) := by
  cases a with
  | interrupt p =>
    obtain ⟨n, -, -, rfl⟩ := step_interrupt h
    rw [← (wasmIrqHander_pc s p n).1] at hl
    exact .inl ⟨todo, hl, rfl⟩
  | irqEnable irq | irqDisable irq =>
    cases h
    exact .inl ⟨todo, hl, rfl⟩
  | initThreadEnv ok =>
    obtain ⟨hpc, -⟩ := step_initThreadEnv h
    rw [hpc] at hl
    cases hl
  | callReturn result =>
    obtain ⟨p, call, todo', hpc, rfl⟩ := step_callReturn h
    rw [hpc] at hl
    cases hl
    cases result with
    | none => exact absurd rfl ha
    | some ret => exact .inl ⟨todo, rfl, rfl⟩
  | worker =>
    simp only [step, workerStep] at h
    cases hpc : s.pc with
    | visit rest =>
      rw [hpc] at hl h
      cases hl
      cases todo with
      | nil =>
        cases h
        exact .inr ⟨rfl, by simp [visits, hpc], rfl⟩
      | cons p todo =>
        obtain ⟨n, -, rfl⟩ := Option.map_eq_some_iff.1 h
        refine .inl ⟨todo, ?_, by simp [visits, hpc]⟩
        unfold visitNode
        split_ifs <;> rfl
    | calling p call rest =>
      rw [hpc] at h
      cases h
    | _ =>
      rw [hpc] at hl
      cases hl

/-- A pass in which no call fails visits all nodes that were left. -/
theorem visited_pass {as : List Action} {todo : List Addr} (hl : s.pc.left = some todo)
    (hm : Meets step (fun s a => s.pc.left.isSome ∧ a ≠ .callReturn none) s as) (h : exec step s as = some t)
    (ht : t.pc = .rescan) : visited s as = todo := by
  induction as generalizing s todo with
  | nil =>
    cases h
    rw [ht] at hl
    cases hl
  | cons a as ih =>
    obtain ⟨u, hu, h⟩ := exec_cons_some step h
    obtain ⟨⟨-, ha⟩, hm⟩ := (meets_cons step hu).1 hm
    have hvisited : visited s (a :: as) = (visits s a).toList ++ visited u as := by rw [visited, hu]
    rcases left_step hl ha hu with ⟨todo', hl', rfl⟩ | ⟨rfl, hnone, hpc⟩
    · rw [hvisited, ih hl' hm h]
    · -- the pass has ended, so there are no more actions
      cases as with
      | nil =>
        rw [hvisited, hnone]
        rfl
      | cons b as =>
        have hleft := hm.1.1
        rw [hpc] at hleft
        cases hleft

/-! ## Registration and release -/

variable {th th' : IrqThread} {irq index arg : UInt32} {p : Addr} {node : Option Addr}

theorem hasLive_iff_any : th.HasLive irq ↔
    (th.thread.irqList.nodes.any fun p => decide (p.2.status ≠ wasmIrqStatusReleased) && decide (p.2.id = irq)) =
      true := by
  rw [List.any_eq_true]
  refine exists_congr fun q => and_congr_right fun _ => ?_
  rw [Bool.and_eq_true, decide_eq_true_eq, decide_eq_true_eq]
  rfl

/-- `-EEXIST` -/
theorem register_hasLive (he : th.isIrqEnable = true) (h : th.HasLive irq) :
    wasmInterruptRegister th irq index arg node = .error (-17) := by
  unfold wasmInterruptRegister
  rw [he, if_pos (hasLive_iff_any.1 h)]
  rfl

/-- `-ENOMEM` -/
theorem register_none (he : th.isIrqEnable = true) (h : ¬ th.HasLive irq) :
    wasmInterruptRegister th irq index arg none = .error (-12) := by
  unfold wasmInterruptRegister
  rw [he, if_neg (mt hasLive_iff_any.2 h)]
  rfl

theorem register_some (he : th.isIrqEnable = true) (h : ¬ th.HasLive irq) (hp : p ∉ th.addrs) (index arg : UInt32) :
    ∃ th', wasmInterruptRegister th irq index arg (some p) = .ok th' ∧
      th'.nodes = th.nodes ++ [(p, ⟨0, irq, 0, index, arg⟩)] ∧ th'.isIrqEnable = true := by
  unfold wasmInterruptRegister
  rw [he, if_neg (mt hasLive_iff_any.2 h)]
  exact ⟨_, dif_pos hp, rfl, rfl⟩

/-- Without a live node the line is not refused, whatever `malloc` returns. -/
theorem register_ne_exists (he : th.isIrqEnable = true) (h : ¬ th.HasLive irq) :
    wasmInterruptRegister th irq index arg node ≠ .error (-17) := by
  cases node with
  | none => simp [register_none he h]
  | some p =>
    unfold wasmInterruptRegister
    rw [he, if_neg (mt hasLive_iff_any.2 h)]
    by_cases hp : p ∉ th.thread.irqList.addrs
    · simp [hp]
    · simp [hp]

theorem unregister_nodes (he : th.isIrqEnable = true) (irq : UInt32) :
    (wasmInterruptUnregister th irq).nodes =
      th.nodes.map fun q => (q.1, if q.2.id = irq then { q.2 with status := wasmIrqStatusReleased } else q.2) := by
  unfold wasmInterruptUnregister
  rw [he]
  rfl

/-! ## The invariant -/

/-- At most one live node of each line. -/
def IrqThread.LiveUnique (th : IrqThread) : Prop :=
  ∀ q ∈ th.nodes, ∀ r ∈ th.nodes, q.2.Live → r.2.Live → q.2.id = r.2.id → q = r

theorem liveUnique_of_tags {th th' : IrqThread} (hu : th.LiveUnique)
    (h : ∀ q ∈ th'.nodes, q.2.Live → ∃ n, (q.1, n) ∈ th.nodes ∧ n.Live ∧ n.id = q.2.id) : th'.LiveUnique := by
  intro q hq r hr hql hrl hid
  obtain ⟨n, hn, hnl, hnid⟩ := h q hq hql
  obtain ⟨m, hm, hml, hmid⟩ := h r hr hrl
  -- both were live before, of one line
  have hnode : (q.1, n) = (r.1, m) := hu _ hn _ hm hnl hml (hnid.trans (hid.trans hmid.symm))
  have haddr : q.1 = r.1 := (Prod.mk.inj hnode).1
  have hr' : (q.1, r.2) ∈ th'.thread.irqList.nodes := haddr ▸ hr
  exact Prod.ext haddr (NodeList.eq_of_mem hq hr')

/-- A live node of a line that has none. -/
theorem liveUnique_concat {n : WasmIrq} (hu : th.LiveUnique) (h : ¬ th.HasLive n.id)
    (hnodes : th'.nodes = th.nodes ++ [(p, n)]) : th'.LiveUnique := by
  intro q hq r hr hql hrl hid
  rw [hnodes, List.mem_append, List.mem_singleton] at hq hr
  rcases hq with hq | rfl <;> rcases hr with hr | rfl
  · exact hu q hq r hr hql hrl hid
  -- one of them is new, and the line had no live node
  · exact absurd ⟨q, hq, hql, hid⟩ h
  · exact absurd ⟨r, hr, hrl, hid.symm⟩ h
  · rfl

theorem liveUnique_unregister (hu : th.LiveUnique) (he : th.isIrqEnable = true) (irq : UInt32) :
    (wasmInterruptUnregister th irq).LiveUnique := by
  refine liveUnique_of_tags hu fun q hq hlive => ?_
  rw [unregister_nodes he] at hq
  obtain ⟨r, hr, rfl⟩ := List.mem_map.1 hq
  -- a node that is still live is of another line
  by_cases hid : r.2.id = irq
  · rw [if_pos hid] at hlive
    exact absurd rfl hlive
  · rw [if_neg hid] at hlive ⊢
    exact ⟨r.2, hr, hlive, rfl⟩

theorem unregister_enabled (irq : UInt32) : (wasmInterruptUnregister th irq).isIrqEnable = th.isIrqEnable := by
  unfold wasmInterruptUnregister
  split_ifs <;> rfl

/-- What the operations keep of an enabled thread. -/
structure NodesInv (s : NodeState) : Prop where
  unique : s.th.LiveUnique
  enabled : s.th.isIrqEnable = true

theorem nodesInv_start (ptIrq : Int32) (execEnv : Addr) : NodesInv (.start ptIrq execEnv) :=
  ⟨fun _ h => (by cases h), rfl⟩

/-- The nodes after a step of the bridge were nodes before, of the same line and status. -/
theorem mem_of_tags_step (h : step s a = some t) {q : Addr × WasmIrq} (hq : q ∈ t.thread.irqList.nodes) :
    ∃ n, (q.1, n) ∈ s.thread.irqList.nodes ∧ n.id = q.2.id ∧ n.status = q.2.status := by
  have htag : tag q ∈ t.tags := List.mem_map_of_mem hq
  rw [tags_step h] at htag
  obtain ⟨n, hn, heq⟩ := mem_tags (List.mem_of_mem_filter htag)
  exact ⟨n, NodeList.mem_of_lookup hn, (congrArg (·.2.1) heq).symm, (congrArg (·.2.2) heq).symm⟩

theorem nodesInv_step {s t : NodeState} {a : NodeAction} (hi : NodesInv s) (h : nodeStep s a = some t) :
    NodesInv t := by
  cases a with
  | register irq index arg node =>
    rw [nodeStep, Option.ite_none_right_eq_some] at h
    obtain ⟨hnew, h⟩ := h
    by_cases hlive : s.th.HasLive irq
    · rw [register_hasLive hi.enabled hlive] at h
      cases h
      exact hi
    · cases node with
      | none =>
        rw [register_none hi.enabled hlive] at h
        cases h
        exact hi
      | some p =>
        obtain ⟨th', hth, hnodes, he⟩ := register_some hi.enabled hlive (hnew p rfl) index arg
        rw [hth] at h
        cases h
        exact ⟨liveUnique_concat hi.unique hlive hnodes, he⟩
  | unregister irq =>
    cases h
    exact ⟨liveUnique_unregister hi.unique hi.enabled irq, (unregister_enabled irq).trans hi.enabled⟩
  | bridge a =>
    obtain ⟨u, hu, rfl⟩ := Option.map_eq_some_iff.1 h
    refine ⟨liveUnique_of_tags hi.unique fun q hq hlive => ?_, hi.enabled⟩
    obtain ⟨n, hn, hid, hstatus⟩ := mem_of_tags_step hu hq
    refine ⟨n, hn, ?_, hid⟩
    rw [WasmIrq.Live, hstatus]
    exact hlive

/-! ## Runs -/

/-- The thread and its bridge. -/
def NodeState.irqState (s : NodeState) : IrqState := ⟨s.th.thread, s.th.pc, s.masked⟩

/-- What the operations do to the nodes of an enabled thread. -/
structure NodesKept (s : NodeState) : Prop where
  unique : s.th.LiveUnique
  /-- `-EEXIST` exactly when the line has a live node. -/
  refused : ∀ irq index arg node, wasmInterruptRegister s.th irq index arg node = .error (-17) ↔ s.th.HasLive irq
  /-- `-ENOMEM` -/
  noMemory : ∀ irq index arg, ¬ s.th.HasLive irq → wasmInterruptRegister s.th irq index arg none = .error (-12)
  appended : ∀ irq index arg p, ¬ s.th.HasLive irq → p ∉ s.th.addrs → ∃ th',
    wasmInterruptRegister s.th irq index arg (some p) = .ok th' ∧
      th'.nodes = s.th.nodes ++ [(p, ⟨0, irq, 0, index, arg⟩)]
  released : ∀ irq, (wasmInterruptUnregister s.th irq).nodes =
    s.th.nodes.map fun q => (q.1, if q.2.id = irq then { q.2 with status := wasmIrqStatusReleased } else q.2)
  swept : ∀ as t, exec step s.irqState as = some t →
    t.tags = s.irqState.tags.filter fun k =>
      decide (¬ (k.1 ∈ visited s.irqState as ∧ k.2.2 = wasmIrqStatusReleased))
  /-- A pass without a failing call visits every node that is left to visit. -/
  pass : ∀ as t todo, s.th.pc.left = some todo →
    Meets step (fun s a => s.pc.left.isSome ∧ a ≠ .callReturn none) s.irqState as →
    exec step s.irqState as = some t → t.pc = .rescan → visited s.irqState as = todo

theorem nodesKept_of_inv {s : NodeState} (hi : NodesInv s) : NodesKept s where
  unique := hi.unique
  refused _ _ _ _ := by
    constructor
    · intro h
      by_contra hlive
      exact register_ne_exists hi.enabled hlive h
    · exact register_hasLive hi.enabled
  noMemory _ _ _ h := register_none hi.enabled h
  appended irq index arg p h hp := by
    obtain ⟨th', hth, hnodes, -⟩ := register_some hi.enabled h hp index arg
    exact ⟨th', hth, hnodes⟩
  released irq := unregister_nodes hi.enabled irq
  swept _ _ h := tags_run h
  pass _ _ _ hl hm h ht := visited_pass hl hm h ht

/-- In every order of registrations, releases and steps of the bridge on an enabled thread there is at most one live
node of each line, and each operation does to the nodes what it is for. -/
theorem nodesKept_of_run {ptIrq : Int32} {execEnv : Addr} {as : List NodeAction} {s : NodeState}
    (h : exec nodeStep (.start ptIrq execEnv) as = some s) : NodesKept s :=
  nodesKept_of_inv (exec_preserves (fun _ _ _ => nodesInv_step) (nodesInv_start ptIrq execEnv) h)

/-- A line is registered, released, registered again while the worker is on its way to the first node, refused, and
released again. -/
def registeredAgain : List NodeAction :=
  [.register 5 3 7 (some 0x2000), .bridge (.initThreadEnv true), .register 6 3 8 (some 0x2100), .bridge .worker,
    .unregister 5, .register 5 4 9 (some 0x2200), .register 5 4 9 (some 0x2300), .bridge .worker, .unregister 5,
    .unregister 5, .bridge .worker]

theorem nodesKept_registeredAgain : ∃ s, exec nodeStep (.start 4 0x1000) registeredAgain = some s ∧
    s.th.nodes.map tag = [(0x2100, 6, 0), (0x2200, 5, 1)] ∧ NodesKept s :=
  ⟨_, rfl, rfl, @nodesKept_of_run 4 0x1000 registeredAgain _ rfl⟩

end VelaWasm.Irq
