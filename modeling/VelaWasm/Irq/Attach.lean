/-
Whether `irq_attach_wrapper` is all or nothing. It links the node of a line before it calls the native `irq_attach`,
and leaves the node where it is when that fails: the line then has a live node without a vector, and no later call for
it gets any further.
-/
import VelaWasm.Irq.LiveNodes

namespace VelaWasm.Irq

open VelaWasm.Run

/-! ## Calls -/

/-- What `irq_attach_wrapper` returns; `native` is what `irq_attach` does. -/
def irqAttachRet (th : IrqThread) (irq index arg : UInt32) (node : Option Addr) (native : Int) : Int :=
  match wasmInterruptRegister th irq index arg node with
  | .ok _ => native
  | .error e => e

/-- A call of `irq_attach_wrapper`: the line, the result, the nodes of the thread before and after it, and the vectors
after it. -/
structure AttachCall where
  irq : UInt32
  ret : Int
  before : List (Addr × WasmIrq)
  after : List (Addr × WasmIrq)
  vectors : List (UInt32 × Addr)

/-- The system, the call that has just returned, and for each node what the call that linked it has returned. -/
structure AttachSystem where
  system : IrqSystem
  last : Option AttachCall
  linkedBy : Addr → Int

def AttachSystem.start : AttachSystem := ⟨.start, none, fun _ => 0⟩

inductive AttachAction where
  | attach (env : Addr) (irq index arg : UInt32) (node : Option Addr) (native : Int)
  | other (a : IrqAction)
  deriving DecidableEq, Repr

/-- The node that a call links, and what the call returns. -/
def links (linkedBy : Addr → Int) (registered : Except Int IrqThread) (node : Option Addr) (ret : Int) : Addr → Int :=
  match node, registered with
  | some p, .ok _ => Function.update linkedBy p ret
  | _, _ => linkedBy

/-- What `malloc` may return for a node: no address that is in use. -/
def IrqSystem.MayMalloc (s : IrqSystem) (node : Option Addr) : Prop := ∀ p ∈ node, s.Unused p

instance (s : IrqSystem) : DecidablePred s.MayMalloc := fun _ => Option.decidableForallMem _

def attachStep (s : AttachSystem) : AttachAction → Option AttachSystem
  | .attach env irq index arg node native =>
    if s.system.MayMalloc node then
      (s.system.threads.lookup (s.system.userData env)).bind fun th =>
        (s.system.irqAttachWrapper env irq index arg node (decide (native = 0))).map fun u =>
          let ret := irqAttachRet th irq index arg node native
          { system := u
            last := some ⟨irq, ret, th.nodes, (u.threads.lookup (s.system.userData env)).elim [] IrqThread.nodes,
              u.vectors⟩
            linkedBy := links s.linkedBy (wasmInterruptRegister th irq index arg node) node ret }
    else none
  | .other (.irqAttachWrapper ..) => none
  | .other a => (irqStep s.system a).map fun u => { s with system := u, last := none }

/-! ## The property -/

/-- A call that fails leaves the nodes as they were; one that succeeds links a live node, the only one of its line, and
attaches it. -/
structure AttachCall.Atomic (c : AttachCall) : Prop where
  failed : c.ret ≠ 0 → c.after = c.before
  attached : c.ret = 0 → ∃ p n, c.after = c.before ++ [(p, n)] ∧ n.id = c.irq ∧ n.Live ∧ (c.irq, p) ∈ c.vectors ∧
    ∀ q ∈ c.before, q.1 ≠ p ∧ (q.2.Live → q.2.id ≠ c.irq)

/-- The call that has just returned is atomic, and a registration is refused only for a node that a successful call has
linked. -/
structure AttachSound (s : AttachSystem) : Prop where
  last : ∀ c ∈ s.last, c.Atomic
  refused : ∀ t ∈ s.system.threads.nodes, ∀ irq index arg node,
    wasmInterruptRegister t.2 irq index arg node = .error (-17) →
      ∃ q ∈ t.2.nodes, q.2.Live ∧ q.2.id = irq ∧ s.linkedBy q.1 = 0

/-- The native `irq_attach` succeeds for an enabled thread, a line without a live node and a node from `malloc`; it is
not called otherwise. -/
def NativeAttaches (s : AttachSystem) : AttachAction → Prop
  | .attach env irq _ _ node native => ∀ th ∈ s.system.threads.lookup (s.system.userData env),
    th.isIrqEnable = true → ¬ th.HasLive irq → node.isSome → native = 0
  | .other _ => True

instance (s : AttachSystem) : DecidablePred (NativeAttaches s)
  | .attach .. => Option.decidableForallMem _
  | .other _ => isTrue trivial

/-! ## Live nodes -/

/-- A live node at `p`, in the list of some thread. -/
def IrqSystem.LiveAt (s : IrqSystem) (p : Addr) : Prop :=
  ∃ t ∈ s.threads.nodes, ∃ n, (p, n) ∈ t.2.nodes ∧ n.Live

section

variable {s u : IrqSystem} {p t : Addr} {th : IrqThread}

/-- A change of one thread that makes no node live. -/
theorem liveAt_modify {f : IrqThread → IrqThread} (ht : s.threads.lookup t = some th)
    (hf : ∀ n, (p, n) ∈ (f th).nodes → n.Live → ∃ m, (p, m) ∈ th.nodes ∧ m.Live)
    (hthreads : u.threads = s.threads.modify t f) (h : u.LiveAt p) : s.LiveAt p := by
  obtain ⟨q, hq, n, hn, hlive⟩ := h
  rw [hthreads] at hq
  rcases NodeList.mem_modify.1 hq with ⟨-, hq⟩ | ⟨-, th', hth', heq⟩
  -- another thread, or the one that is changed
  · exact ⟨q, hq, n, hn, hlive⟩
  · rw [← NodeList.lookup_eq_some, ht] at hth'
    cases hth'
    rw [heq] at hn
    obtain ⟨m, hm, hlive⟩ := hf n hn hlive
    exact ⟨(t, th), NodeList.mem_of_lookup ht, m, hm, hlive⟩

theorem live_unregister {irq : UInt32} {n : WasmIrq} (h : (p, n) ∈ (wasmInterruptUnregister th irq).nodes)
    (hlive : n.Live) : (p, n) ∈ th.nodes := by
  cases he : th.isIrqEnable with
  | false =>
    unfold wasmInterruptUnregister at h
    rwa [he] at h
  | true =>
    rw [unregister_nodes he] at h
    obtain ⟨r, hr, heq⟩ := List.mem_map.1 h
    by_cases hid : r.2.id = irq
    · rw [if_pos hid] at heq
      cases heq
      exact absurd rfl hlive
    · rw [if_neg hid] at heq
      exact heq ▸ hr

/-- The exit of a thread links no node. -/
theorem exit_nodes_subset {s u : Shutdown} (h : wasmIrqThreadExit s = some u) :
    u.irq.thread.irqList.nodes ⊆ s.irq.thread.irqList.nodes := by
  unfold wasmIrqThreadExit at h
  cases hpc : s.exitPc with
  | join =>
    -- the list is initialised again
    rw [hpc] at h
    obtain ⟨-, h⟩ := Option.ite_none_right_eq_some.1 h
    cases h
    exact List.nil_subset _
  | returned =>
    rw [hpc] at h
    cases h
  | testPtIrq | setIrqExit | readStatus | semPost =>
    rw [hpc] at h
    cases h
    exact List.Subset.refl _

theorem liveAt_bridge {a : ShutdownAction} (h : s.bridge t a = some u) (hu : u.LiveAt p) : s.LiveAt p := by
  obtain ⟨th, ht, h⟩ := Option.bind_eq_some_iff.1 h
  obtain ⟨w, hw, rfl⟩ := Option.map_eq_some_iff.1 h
  refine liveAt_modify (f := fun th => th.after a w) ht (fun n hn hlive => ?_) rfl hu
  cases a with
  | bridge a =>
    obtain ⟨irq, hirq, rfl⟩ := Option.map_eq_some_iff.1 hw
    obtain ⟨m, hm, -, hstatus⟩ := mem_of_tags_step hirq hn
    exact ⟨m, hm, by rwa [WasmIrq.Live, hstatus]⟩
  | exit => exact ⟨n, exit_nodes_subset hw hn, hlive⟩

/-- The steps of the system that are no calls of `irq_attach_wrapper` make no node live. -/
theorem liveAt_irqStep {a : IrqAction} (ha : ∀ env irq index arg node attached,
      a ≠ .irqAttachWrapper env irq index arg node attached)
    (h : irqStep s a = some u) (hu : u.LiveAt p) : s.LiveAt p := by
  cases a with
  | irqInitializeWrapper env t ptIrq execEnv =>
    obtain ⟨hun, h⟩ := Option.dite_none_right_eq_some.1 h
    cases h
    obtain ⟨q, hq, n, hn, hlive⟩ := hu
    rcases List.mem_append.1 hq with hq | hq
    · exact ⟨q, hq, n, hn, hlive⟩
    · -- the new thread has no nodes
      rw [List.mem_singleton.1 hq] at hn
      cases hn
  | irqAttachWrapper env irq index arg node attached => exact absurd rfl (ha env irq index arg node attached)
  | unregister t irq =>
    obtain ⟨th, ht, rfl⟩ := Option.map_eq_some_iff.1 h
    exact liveAt_modify (f := fun th => wasmInterruptUnregister th irq) ht
      (fun n hn hlive => ⟨n, live_unregister hn hlive, hlive⟩) rfl hu
  | irqUninitializeWrapper env =>
    obtain ⟨th, -, h⟩ := Option.bind_eq_some_iff.1 h
    obtain ⟨w, hw, rfl⟩ := Option.map_eq_some_iff.1 h
    refine liveAt_bridge hw ?_
    split_ifs at hu
    · obtain ⟨q, hq, hlive⟩ := hu
      exact ⟨q, (NodeList.mem_erase.1 hq).2, hlive⟩
    · exact hu
  | interrupt irq =>
    obtain ⟨v, -, h⟩ := Option.bind_eq_some_iff.1 h
    obtain ⟨t, -, h⟩ := Option.bind_eq_some_iff.1 h
    exact liveAt_bridge h hu
  | irqEnable irq | irqDisable irq =>
    cases h
    exact hu
  | initThreadEnv t ok => exact liveAt_bridge h hu
  | callReturn t result => exact liveAt_bridge h hu
  | worker t => exact liveAt_bridge h hu

end

/-! ## The invariant -/

/-- The last call is atomic, and every live node was linked by a successful call. -/
structure AttachInv (s : AttachSystem) : Prop where
  last : ∀ c ∈ s.last, c.Atomic
  linked : ∀ p, s.system.LiveAt p → s.linkedBy p = 0

theorem attachInv_start : AttachInv .start :=
  ⟨fun _ h => (by cases h), fun _ _ => rfl⟩

variable {th th' : IrqThread} {irq index arg : UInt32} {node : Option Addr} {p : Addr}

/-- A registration is refused for a live node of its line only. -/
theorem hasLive_of_refused (h : wasmInterruptRegister th irq index arg node = .error (-17)) : th.HasLive irq := by
  cases he : th.isIrqEnable with
  | true =>
    by_contra hlive
    exact register_ne_exists he hlive h
  | false =>
    unfold wasmInterruptRegister at h
    rw [he] at h
    simp at h

/-- A registration that succeeds links a node of a line that had no live one. -/
theorem register_ok (h : wasmInterruptRegister th irq index arg node = .ok th') :
    ∃ p, node = some p ∧ p ∉ th.addrs ∧ th'.nodes = th.nodes ++ [(p, ⟨0, irq, 0, index, arg⟩)] ∧
      th.isIrqEnable = true ∧ ¬ th.HasLive irq := by
  have he : th.isIrqEnable = true := by
    by_contra he
    unfold wasmInterruptRegister at h
    rw [Bool.not_eq_true] at he
    rw [he] at h
    cases h
  have hlive : ¬ th.HasLive irq := by
    intro hlive
    rw [register_hasLive he hlive] at h
    cases h
  cases node with
  | none =>
    rw [register_none he hlive] at h
    cases h
  | some p =>
    have hp : p ∉ th.addrs := (wasmInterruptRegister_ok h).1
    obtain ⟨th'', hth, hnodes, -⟩ := register_some he hlive hp index arg
    rw [hth] at h
    cases h
    exact ⟨p, rfl, hp, hnodes, he, hlive⟩

theorem register_error_ne_zero {e : Int} (h : wasmInterruptRegister th irq index arg node = .error e) : e ≠ 0 := by
  unfold wasmInterruptRegister at h
  split_ifs at h
  · cases h
    decide
  · cases h
    decide
  · cases node with
    | none =>
      cases h
      decide
    | some p =>
      simp only at h
      split_ifs at h
      cases h
      decide

theorem attachSound_of_inv {s : AttachSystem} (hi : AttachInv s) : AttachSound s := by
  refine ⟨hi.last, fun t ht irq index arg node h => ?_⟩
  obtain ⟨q, hq, hlive, hid⟩ := hasLive_of_refused h
  exact ⟨q, hq, hlive, hid, hi.linked q.1 ⟨t, ht, q.2, hq, hlive⟩⟩

/-! ## Calls of the wrapper -/

section

variable {s t : AttachSystem} {env : Addr} {native e : Int}

/-- A call that registers no node changes nothing and returns the error. -/
theorem attachStep_error (ht : s.system.threads.lookup (s.system.userData env) = some th)
    (hreg : wasmInterruptRegister th irq index arg node = .error e)
    (h : attachStep s (.attach env irq index arg node native) = some t) :
    t.system = s.system ∧ t.linkedBy = s.linkedBy ∧
      t.last = some ⟨irq, e, th.nodes, th.nodes, s.system.vectors⟩ := by
  have hwrapper : s.system.irqAttachWrapper env irq index arg node (decide (native = 0)) = some s.system := by
    unfold IrqSystem.irqAttachWrapper
    rw [ht, Option.bind_some, hreg]
    cases node <;> rfl
  have hret : irqAttachRet th irq index arg node native = e := by rw [irqAttachRet, hreg]
  have hlinks : links s.linkedBy (.error e) node e = s.linkedBy := by cases node <;> rfl
  obtain ⟨-, h⟩ := Option.ite_none_right_eq_some.1 h
  rw [ht, Option.bind_some, hwrapper, Option.map_some, hret, hreg] at h
  simp only [hlinks, ht, Option.elim_some, Option.some.injEq] at h
  subst h
  exact ⟨rfl, rfl, rfl⟩

/-- A call that registers a node links it, and returns what `irq_attach` does. -/
theorem attachStep_ok (ht : s.system.threads.lookup (s.system.userData env) = some th)
    (hreg : wasmInterruptRegister th irq index arg (some p) = .ok th')
    (h : attachStep s (.attach env irq index arg (some p) native) = some t) :
    t.system.threads = s.system.threads.modify (s.system.userData env) (fun _ => th') ∧
      t.linkedBy = Function.update s.linkedBy p native ∧
      t.last = some ⟨irq, native, th.nodes, th'.nodes, t.system.vectors⟩ ∧
      (native = 0 → (irq, p) ∈ t.system.vectors) := by
  have hret : irqAttachRet th irq index arg (some p) native = native := by rw [irqAttachRet, hreg]
  obtain ⟨-, h⟩ := Option.ite_none_right_eq_some.1 h
  rw [ht, Option.bind_some, hret, hreg] at h
  obtain ⟨u, hu, rfl⟩ := Option.map_eq_some_iff.1 h
  rw [IrqSystem.irqAttachWrapper, ht, Option.bind_some, hreg] at hu
  obtain ⟨-, hu⟩ := Option.ite_none_right_eq_some.1 hu
  cases hu
  refine ⟨rfl, rfl, ?_, fun hnative => ?_⟩
  · simp only [NodeList.lookup_modify_self ht, Option.elim_some]
  · simp only [hnative, decide_true, if_true, List.mem_cons_self]

theorem attachInv_attach (hi : AttachInv s) (hok : NativeAttaches s (.attach env irq index arg node native))
    (h : attachStep s (.attach env irq index arg node native) = some t) : AttachInv t := by
  obtain ⟨th, ht, -⟩ := Option.bind_eq_some_iff.1 (Option.ite_none_right_eq_some.1 h).2
  cases hreg : wasmInterruptRegister th irq index arg node with
  | error e =>
    obtain ⟨hsystem, hlinked, hlast⟩ := attachStep_error ht hreg h
    refine ⟨fun c hc => ?_, fun p hp => ?_⟩
    · -- a disabled thread, a line with a live node or no memory
      rw [hlast] at hc
      cases hc
      exact ⟨fun _ => rfl, fun hzero => absurd hzero (register_error_ne_zero hreg)⟩
    · rw [hlinked]
      rw [hsystem] at hp
      exact hi.linked p hp
  | ok th' =>
    obtain ⟨p, rfl, hp, hnodes, he, hlive⟩ := register_ok hreg
    have hnative : native = 0 := hok th ht he hlive rfl
    obtain ⟨hthreads, hlinked, hlast, hvectors⟩ := attachStep_ok ht hreg h
    have hnew : (0 : Int) ≠ wasmIrqStatusReleased := by decide
    refine ⟨fun c hc => ?_, fun q hq => ?_⟩
    · rw [hlast] at hc
      cases hc
      refine ⟨fun hne => absurd hnative hne, fun _ => ?_⟩
      refine ⟨p, _, hnodes, rfl, hnew, hvectors hnative, fun q hq => ⟨?_, ?_⟩⟩
      · rintro rfl
        exact hp (List.mem_map_of_mem hq)
      · exact fun hql hid => hlive ⟨q, hq, hql, hid⟩
    · rw [hlinked]
      by_cases hqp : q = p
      · rw [hqp, hnative, Function.update_self]
      · -- a live node elsewhere was live before
        rw [Function.update_of_ne hqp]
        refine hi.linked q (liveAt_modify (f := fun _ => th') ht (fun n hn hql => ?_) hthreads hq)
        rw [hnodes, List.mem_append, List.mem_singleton] at hn
        rcases hn with hn | heq
        · exact ⟨n, hn, hql⟩
        · exact absurd (congrArg Prod.fst heq) hqp

/-- When `irq_attach` fails the node of the line stays linked. -/
theorem not_atomic_attach (hok : ¬ NativeAttaches s (.attach env irq index arg node native))
    (h : attachStep s (.attach env irq index arg node native) = some t) : ¬ AttachSound t := by
  simp only [NativeAttaches, not_forall] at hok
  obtain ⟨th, ht, he, hlive, hnode, hne⟩ := hok
  obtain ⟨p, rfl⟩ := Option.isSome_iff_exists.1 hnode
  obtain ⟨-, -, hthreads, -⟩ := (Option.ite_none_right_eq_some.1 h).1 p rfl
  have hp : p ∉ th.addrs := hthreads _ (NodeList.mem_of_lookup ht)
  -- the registration succeeds, and nothing takes it back
  obtain ⟨th', hreg, hnodes, -⟩ := register_some he hlive hp index arg
  obtain ⟨-, -, hlast, -⟩ := attachStep_ok ht hreg h
  intro hs
  have hsame : th'.nodes = th.nodes := (hs.last _ hlast).failed hne
  rw [hsame] at hnodes
  exact List.cons_ne_nil _ _ (List.self_eq_append_right.1 hnodes)

/-! ## Runs -/

theorem attachInv_step {a : AttachAction} (hi : AttachInv s) (hok : NativeAttaches s a)
    (h : attachStep s a = some t) : AttachInv t := by
  cases a with
  | attach env irq index arg node native => exact attachInv_attach hi hok h
  | other a =>
    have hne : ∀ env irq index arg node attached, a ≠ .irqAttachWrapper env irq index arg node attached := by
      rintro env irq index arg node attached rfl
      cases h
    have hstep : ((irqStep s.system a).map fun u => { s with system := u, last := none }) = some t := by
      cases a with
      | irqAttachWrapper env irq index arg node attached => exact absurd rfl (hne env irq index arg node attached)
      | _ => exact h
    obtain ⟨u, hu, rfl⟩ := Option.map_eq_some_iff.1 hstep
    exact ⟨fun _ hc => (by cases hc), fun p hp => hi.linked p (liveAt_irqStep hne hu hp)⟩

theorem not_sound_attachStep {a : AttachAction} (hok : ¬ NativeAttaches s a) (h : attachStep s a = some t) :
    ¬ AttachSound t := by
  cases a with
  | attach env irq index arg node native => exact not_atomic_attach hok h
  | other a => exact absurd trivial hok

end

/-- In a run every call of `irq_attach_wrapper` is atomic, and none is refused because of one that failed, exactly when
every native `irq_attach` of the run succeeds. -/
theorem attachSound_iff_nativeAttaches {s : AttachSystem} {as : List AttachAction}
    (h : exec attachStep .start as = some s) :
    Along attachStep AttachSound .start as ↔ Meets attachStep NativeAttaches .start as :=
  along_iff_meets (fun _ => attachSound_of_inv) (fun _ _ _ => attachInv_step)
    (fun _ _ _ _ hok ht => not_sound_attachStep hok ht) attachInv_start h

/-- A line is attached, refused while it is, and attached again after its release; an allocation fails between. -/
def attachedAgain : List AttachAction :=
  [.other (.irqInitializeWrapper 1 16 7 101), .other (.initThreadEnv 16 true), .attach 1 5 3 7 (some 48) 0,
    .attach 1 5 3 7 (some 64) (-22), .other (.unregister 16 5), .attach 1 5 4 8 none (-22),
    .attach 1 5 4 8 (some 64) 0]

theorem attachSound_attachedAgain :
    (∃ s, exec attachStep .start attachedAgain = some s ∧ s.system.vectors = [(5, 64)]) ∧
      Along attachStep AttachSound .start attachedAgain := by
  have hm : Meets attachStep NativeAttaches .start attachedAgain := by decide
  exact ⟨⟨_, rfl, rfl⟩, (attachSound_iff_nativeAttaches rfl).2 hm⟩

/-- The line has no vector, and its first call left a node that refuses the second. -/
def attachRefused : List AttachAction :=
  [.other (.irqInitializeWrapper 1 16 7 101), .attach 1 5 3 7 (some 48) (-22), .attach 1 5 3 7 (some 64) 0]

theorem attachRefused_not_sound :
    ¬ ∀ as s, exec attachStep .start as = some s → AttachSound s := by
  intro h
  obtain ⟨q, hq, -, -, hlinked⟩ := (h attachRefused _ rfl).refused _ List.mem_cons_self 5 3 7 (some 64) rfl
  rw [List.mem_singleton.1 hq] at hlinked
  cases hlinked

end VelaWasm.Irq
