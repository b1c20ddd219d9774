/-
The IRQ calls of an application on one exec env, in any order. Each reaches the `wasm_irq_thread` through the
env's user data, which `irq_initialize` sets when it succeeds and nothing resets: the calls are safe exactly
when each `irq_attach` and `irq_uninitialize` follows an initialisation that is still in place, and all that
was created is released by a last `irq_uninitialize` exactly when none was initialised over.
-/
import VelaWasm.Irq.Vectors

namespace VelaWasm.Irq

open VelaWasm.Run

/-! ## Calls -/

inductive ResourceKind where
  /-- the `wasm_irq_thread` structure -/
  | memory
  | execEnv
  | spawnExecEnv
  /-- the worker thread -/
  | worker
  deriving DecidableEq, Repr

/-- A resource of the structure that the `owner`-th `malloc` returned. -/
structure IrqResource where
  kind : ResourceKind
  owner : ℕ
  deriving DecidableEq, Repr

/-- What `pthread_create` stores is not negative. -/
abbrev ThreadId := { pt : Int32 // 0 ≤ pt }

/-- The structures, each known by the number of the `malloc` it is from, the user data of the exec env, and how
often each resource was created and released. -/
structure CallState where
  mallocs : ℕ
  threads : ℕ → Option IrqThread
  userData : Option ℕ
  created : IrqResource → ℕ
  released : IrqResource → ℕ

def CallState.start : CallState := ⟨0, fun _ => none, none, fun _ => 0, fun _ => 0⟩

/-- A call, with the outcomes of what it allocates and creates. -/
inductive IrqCall where
  | irqInitializeWrapper (malloc : Bool) (execEnv : Option Addr) (spawned : Bool) (pthread : Option ThreadId)
  | irqAttachWrapper (irq index arg : UInt32) (node : Option Addr)
  | irqUninitializeWrapper
  deriving DecidableEq

/-- The counts with one more for each of the kinds at `owner`. -/
def tally (counts : IrqResource → ℕ) (owner : ℕ) (kinds : List ResourceKind) (r : IrqResource) : ℕ :=
  if r.owner = owner then counts r + kinds.count r.kind else counts r

def CallState.create (s : CallState) (owner : ℕ) (kinds : List ResourceKind) : CallState :=
  { s with created := tally s.created owner kinds }

def CallState.release (s : CallState) (owner : ℕ) (kinds : List ResourceKind) : CallState :=
  { s with released := tally s.released owner kinds }

/-- `wasm_irq_thread_create` on the `k`-th structure: the thread if it succeeds. -/
def CallState.wasmIrqThreadCreate (s : CallState) (k : ℕ) (execEnv : Option Addr) (spawned : Bool)
    (pthread : Option ThreadId) : CallState × Option IrqThread :=
  match execEnv with
  | none => (s, none)
  | some execEnv =>
    let s := s.create k [.execEnv]
    if !spawned then (s.release k [.execEnv], none)
    else
      let s := s.create k [.spawnExecEnv]
      match pthread with
      | none => (s.release k [.spawnExecEnv, .execEnv], none)
      | some pt => (s.create k [.worker], some (Irq.wasmIrqThreadCreate pt execEnv))

/-- `wasm_irq_thread_exit`, once it has joined the worker -/
def CallState.wasmIrqThreadExit (s : CallState) (k : ℕ) (th : IrqThread) : CallState :=
  if th.ptIrq < 0 then s else s.release k [.worker, .spawnExecEnv, .execEnv]

def CallState.irqInitializeWrapper (s : CallState) (malloc : Bool) (execEnv : Option Addr) (spawned : Bool)
    (pthread : Option ThreadId) : CallState :=
  if !malloc then s
  else
    let k := s.mallocs
    let s := { s.create k [.memory] with mallocs := k + 1 }
    match s.wasmIrqThreadCreate k execEnv spawned pthread with
    -- the user data stays as it was
    | (s, none) => s.release k [.memory]
    -- an earlier structure is no longer pointed to
    | (s, some th) => { s with threads := Function.update s.threads k (some th), userData := some k }

/-- The structure that the user data points to; none if it was never created or has been freed. -/
def CallState.deref (s : CallState) : Option (ℕ × IrqThread) :=
  s.userData.bind fun k => (s.threads k).map fun th => (k, th)

/-- A call; `none` when it dereferences a structure that is not there. -/
def irqCall (s : CallState) : IrqCall → Option CallState
  | .irqInitializeWrapper malloc execEnv spawned pthread => some (s.irqInitializeWrapper malloc execEnv spawned pthread)
  | .irqAttachWrapper irq index arg node => s.deref.map fun (k, th) =>
    match wasmInterruptRegister th irq index arg node with
    | .ok th => { s with threads := Function.update s.threads k (some th) }
    | .error _ => s
  | .irqUninitializeWrapper => s.deref.map fun (k, th) =>
    let s := s.wasmIrqThreadExit k th
    -- the user data still points to the structure that is freed
    { s.release k [.memory] with threads := Function.update s.threads k none }

/-! ## The property -/

/-- No call dereferences a structure that is not there; after a last `irq_uninitialize` each resource that was
created has been released exactly once. -/
def SafeInOrder (cs : List IrqCall) : Prop :=
  ∃ s, exec irqCall .start cs = some s ∧
    (cs.getLast? = some .irqUninitializeWrapper → ∀ r, 0 < s.created r → s.created r = 1 ∧ s.released r = 1)

/-- An `irq_initialize` all of whose allocations succeed. -/
def IrqCall.succeeds : IrqCall → Bool
  | irqInitializeWrapper malloc execEnv spawned pthread => malloc && execEnv.isSome && spawned && pthread.isSome
  | irqAttachWrapper .. | irqUninitializeWrapper => false

/-- Whether an initialisation is in place after the call. -/
def IrqCall.after (initialised : Bool) : IrqCall → Bool
  | c@(irqInitializeWrapper ..) => initialised || c.succeeds
  | irqAttachWrapper .. => initialised
  | irqUninitializeWrapper => false

/-- The calls that go through the user data. -/
def IrqCall.derefs : IrqCall → Bool
  | irqInitializeWrapper .. => false
  | irqAttachWrapper .. | irqUninitializeWrapper => true

/-- `irq_attach` and `irq_uninitialize` are called with an initialisation in place. -/
def Initialised : (initialised : Bool) → List IrqCall → Prop
  | _, [] => True
  | i, c :: cs => (c.derefs = true → i = true) ∧ Initialised (c.after i) cs

/-- No `irq_initialize` succeeds with an initialisation in place. -/
def NotRepeated : (initialised : Bool) → List IrqCall → Prop
  | _, [] => True
  | i, c :: cs => ¬ (c.succeeds = true ∧ i = true) ∧ NotRepeated (c.after i) cs

/-! ## The invariant -/

/-- The resources of each structure that is in place are created and not yet released, and all others are
released as often as they were created. -/
structure CallInv (initialised : Bool) (s : CallState) : Prop where
  fresh : ∀ k, s.mallocs ≤ k → s.threads k = none ∧ ∀ kind, s.created ⟨kind, k⟩ = 0
  ledger : ∀ r, s.created r = s.released r + if (s.threads r.owner).isSome then 1 else 0
  once : ∀ r, s.created r ≤ 1
  valid : ∀ k th, s.threads k = some th → 0 ≤ th.ptIrq
  initialised : initialised = true ↔ ∃ k, s.userData = some k ∧ (s.threads k).isSome

/-- A structure in place that the user data does not point to. -/
def Orphan (s : CallState) : Prop := ∃ k, (s.threads k).isSome ∧ s.userData ≠ some k

theorem callInv_start : CallInv false .start := by
  refine ⟨fun _ _ => ⟨rfl, fun _ => rfl⟩, fun _ => rfl, fun _ => Nat.zero_le _, fun _ _ h => (by cases h), ?_⟩
  simp [CallState.start]

variable {i : Bool} {s t : CallState} {k : ℕ} {th : IrqThread}

theorem tally_of_owner (counts : IrqResource → ℕ) (k : ℕ) (kinds : List ResourceKind) (kind : ResourceKind) :
    tally counts k kinds ⟨kind, k⟩ = counts ⟨kind, k⟩ + kinds.count kind := if_pos rfl

theorem tally_of_ne (counts : IrqResource → ℕ) {k : ℕ} (kinds : List ResourceKind) {r : IrqResource}
    (h : r.owner ≠ k) : tally counts k kinds r = counts r := if_neg h

/-- A property of the counts, at `k` and elsewhere. -/
theorem tally_cases {P : IrqResource → ℕ → Prop} {counts : IrqResource → ℕ} {k : ℕ} {kinds : List ResourceKind}
    (hself : ∀ kind, P ⟨kind, k⟩ (counts ⟨kind, k⟩ + kinds.count kind))
    (hother : ∀ r, r.owner ≠ k → P r (counts r)) (r : IrqResource) : P r (tally counts k kinds r) := by
  by_cases hr : r.owner = k
  · obtain ⟨kind, owner⟩ := r
    subst hr
    rw [tally_of_owner]
    exact hself kind
  · rw [tally_of_ne counts kinds hr]
    exact hother r hr

theorem deref_eq_some (hu : s.userData = some k) (hk : s.threads k = some th) : s.deref = some (k, th) := by
  rw [CallState.deref, hu, Option.bind_some, hk]
  rfl

theorem of_deref (h : s.deref = some (k, th)) : s.userData = some k ∧ s.threads k = some th := by
  obtain ⟨j, hj, h⟩ := Option.bind_eq_some_iff.1 h
  obtain ⟨u, hu, h⟩ := Option.map_eq_some_iff.1 h
  cases h
  exact ⟨hj, hu⟩

theorem CallInv.deref_iff (hi : CallInv i s) : i = true ↔ ∃ k th, s.deref = some (k, th) := by
  rw [hi.initialised]
  constructor
  · rintro ⟨k, hu, hk⟩
    obtain ⟨th, hth⟩ := Option.isSome_iff_exists.1 hk
    exact ⟨k, th, deref_eq_some hu hth⟩
  · rintro ⟨k, th, h⟩
    obtain ⟨hu, hth⟩ := of_deref h
    exact ⟨k, hu, by simp [hth]⟩

/-! ## `irq_initialize` -/

theorem tally_tally (counts : IrqResource → ℕ) (k : ℕ) (kinds kinds' : List ResourceKind) :
    tally (tally counts k kinds) k kinds' = tally counts k (kinds ++ kinds') := by
  funext r
  unfold tally
  split_ifs
  · rw [List.count_append, Nat.add_assoc]
  · rfl

theorem tally_perm (counts : IrqResource → ℕ) (k : ℕ) {kinds kinds' : List ResourceKind} (h : kinds.Perm kinds') :
    tally counts k kinds = tally counts k kinds' := by
  funext r
  unfold tally
  rw [h.count_eq]

section

variable {malloc spawned : Bool} {execEnv : Option Addr} {pthread : Option ThreadId}

/-- A call that fails releases what it has created. -/
theorem initialize_fails (h : (IrqCall.irqInitializeWrapper malloc execEnv spawned pthread).succeeds = false) :
    s.irqInitializeWrapper malloc execEnv spawned pthread = s ∨ ∃ kinds : List ResourceKind, kinds.Nodup ∧
      s.irqInitializeWrapper malloc execEnv spawned pthread =
        ⟨s.mallocs + 1, s.threads, s.userData, tally s.created s.mallocs kinds, tally s.released s.mallocs kinds⟩ := by
  cases malloc with
  | false => exact .inl rfl
  | true =>
    right
    cases execEnv with
    | none => exact ⟨[.memory], by decide, rfl⟩
    | some execEnv =>
      cases spawned with
      | false =>
        refine ⟨[.memory, .execEnv], by decide, ?_⟩
        have hperm : [ResourceKind.memory, .execEnv].Perm [.execEnv, .memory] := .swap _ _ _
        rw [tally_perm s.released _ hperm]
        simp [CallState.irqInitializeWrapper, CallState.wasmIrqThreadCreate, CallState.create, CallState.release,
          tally_tally]
      | true =>
        cases pthread with
        | none =>
          refine ⟨[.memory, .execEnv, .spawnExecEnv], by decide, ?_⟩
          have hperm : [ResourceKind.memory, .execEnv, .spawnExecEnv].Perm [.spawnExecEnv, .execEnv, .memory] :=
            (List.reverse_perm _).symm
          rw [tally_perm s.released _ hperm]
          simp [CallState.irqInitializeWrapper, CallState.wasmIrqThreadCreate, CallState.create, CallState.release,
            tally_tally]
        | some pt => cases h

/-- The resources of a structure in place. -/
def allKinds : List ResourceKind := [.memory, .execEnv, .spawnExecEnv, .worker]

theorem initialize_succeeds (h : (IrqCall.irqInitializeWrapper malloc execEnv spawned pthread).succeeds = true) :
    ∃ th : IrqThread, 0 ≤ th.ptIrq ∧ s.irqInitializeWrapper malloc execEnv spawned pthread =
      ⟨s.mallocs + 1, Function.update s.threads s.mallocs (some th), some s.mallocs,
        tally s.created s.mallocs allKinds, s.released⟩ := by
  simp only [IrqCall.succeeds, Bool.and_eq_true] at h
  obtain ⟨⟨⟨hm, he⟩, hs⟩, hp⟩ := h
  obtain ⟨execEnv, rfl⟩ := Option.isSome_iff_exists.1 he
  obtain ⟨pt, rfl⟩ := Option.isSome_iff_exists.1 hp
  subst hm hs
  refine ⟨Irq.wasmIrqThreadCreate pt execEnv, pt.2, ?_⟩
  simp [CallState.irqInitializeWrapper, CallState.wasmIrqThreadCreate, CallState.create, tally_tally, allKinds]

end

/-- A failing call keeps the invariant. -/
theorem CallInv.fails (hi : CallInv i s) {kinds : List ResourceKind} (hk : kinds.Nodup) :
    CallInv i ⟨s.mallocs + 1, s.threads, s.userData, tally s.created s.mallocs kinds,
      tally s.released s.mallocs kinds⟩ := by
  have hnone := hi.fresh s.mallocs (Nat.le_refl _)
  refine ⟨fun k (hle : s.mallocs + 1 ≤ k) => ⟨(hi.fresh k (by omega)).1, fun kind => ?_⟩, fun r => ?_, fun r => ?_,
    hi.valid, hi.initialised⟩
  · have hne : k ≠ s.mallocs := by omega
    exact (tally_of_ne _ kinds hne).trans ((hi.fresh k (by omega)).2 kind)
  · have := hi.ledger r
    simp only [tally]
    split_ifs at this ⊢ <;> omega
  · refine tally_cases (P := fun _ n => n ≤ 1) (fun kind => ?_) (fun r _ => hi.once r) r
    rw [hnone.2 kind, Nat.zero_add]
    exact List.nodup_iff_count_le_one.1 hk kind

/-- A successful call puts a new structure in place. -/
theorem CallInv.succeeds (hi : CallInv i s) (hth : 0 ≤ th.ptIrq) :
    CallInv true ⟨s.mallocs + 1, Function.update s.threads s.mallocs (some th), some s.mallocs,
      tally s.created s.mallocs allKinds, s.released⟩ := by
  have hnone := hi.fresh s.mallocs (Nat.le_refl _)
  have hall : ∀ kind, allKinds.count kind = 1 := fun kind => by cases kind <;> rfl
  refine ⟨fun k (hle : s.mallocs + 1 ≤ k) => ⟨?_, fun kind => ?_⟩, fun r => ?_, fun r => ?_, fun k u hu => ?_, ?_⟩
  · exact (Function.update_of_ne (by omega) _ _).trans (hi.fresh k (by omega)).1
  · have hne : k ≠ s.mallocs := by omega
    exact (tally_of_ne _ _ hne).trans ((hi.fresh k (by omega)).2 kind)
  · refine tally_cases (P := fun r n => n = s.released r +
        if (Function.update s.threads s.mallocs (some th) r.owner).isSome then 1 else 0) (fun kind => ?_)
      (fun r hr => ?_) r
    · have hledger := hi.ledger ⟨kind, s.mallocs⟩
      rw [hnone.2 kind] at hledger
      rw [hnone.2 kind, hall]
      simp only [Function.update_self, Option.isSome_some, if_true]
      omega
    · simp only [Function.update_of_ne hr]
      exact hi.ledger r
  · refine tally_cases (P := fun _ n => n ≤ 1) (fun kind => ?_) (fun r _ => hi.once r) r
    have hone : s.created ⟨kind, s.mallocs⟩ + allKinds.count kind = 1 := by rw [hnone.2 kind, hall]
    exact Nat.le_of_eq hone
  · simp only at hu
    by_cases hk : k = s.mallocs
    · subst hk
      rw [Function.update_self] at hu
      cases hu
      exact hth
    · rw [Function.update_of_ne hk] at hu
      exact hi.valid k u hu
  · simp

/-! ## `irq_attach` and `irq_uninitialize` -/

theorem isSome_update (hk : s.threads k = some th) (th' : IrqThread) (j : ℕ) :
    (Function.update s.threads k (some th') j).isSome = (s.threads j).isSome := by
  by_cases hj : j = k
  · subst hj
    rw [Function.update_self, hk]
    rfl
  · rw [Function.update_of_ne hj]

theorem wasmInterruptRegister_ptIrq {irq index arg : UInt32} {node : Option Addr} {th' : IrqThread}
    (h : wasmInterruptRegister th irq index arg node = .ok th') : th'.ptIrq = th.ptIrq := by
  unfold wasmInterruptRegister at h
  split_ifs at h
  cases node with
  | none => cases h
  | some node =>
    simp only at h
    split_ifs at h
    cases h
    rfl

/-- A registration does not change which structures are in place. -/
theorem CallInv.attach (hi : CallInv i s) (hk : s.threads k = some th) {th' : IrqThread} (hpt : th'.ptIrq = th.ptIrq) :
    CallInv i { s with threads := Function.update s.threads k (some th') } := by
  have hsome := isSome_update hk th'
  refine ⟨fun j hle => ⟨?_, (hi.fresh j hle).2⟩, fun r => ?_, hi.once, fun j u hu => ?_, ?_⟩
  · have hnone := (hi.fresh j hle).1
    have hj : j ≠ k := by
      rintro rfl
      rw [hk] at hnone
      cases hnone
    exact (Function.update_of_ne hj _ _).trans hnone
  · rw [hsome]
    exact hi.ledger r
  · by_cases hj : j = k
    · subst hj
      simp only [Function.update_self, Option.some.injEq] at hu
      rw [← hu, hpt]
      exact hi.valid j th hk
    · simp only [Function.update_of_ne hj] at hu
      exact hi.valid j u hu
  · simp only [hsome]
    exact hi.initialised

/-- The structure that the user data points to is released with all its resources. -/
theorem CallInv.release (hi : CallInv i s) (hu : s.userData = some k) (hk : s.threads k = some th) :
    CallInv false { s with
      threads := Function.update s.threads k none
      released := tally s.released k allKinds } := by
  have hall : ∀ kind, allKinds.count kind = 1 := fun kind => by cases kind <;> rfl
  refine ⟨fun j hle => ⟨?_, (hi.fresh j hle).2⟩, fun r => ?_, hi.once, fun j u hj => ?_, ?_⟩
  · have hnone := (hi.fresh j hle).1
    simp only [Function.update_apply]
    split_ifs
    · rfl
    · exact hnone
  · refine tally_cases (P := fun r n => s.created r = n +
        if (Function.update s.threads k none r.owner).isSome then 1 else 0) (fun kind => ?_) (fun r hr => ?_) r
    · have hledger := hi.ledger ⟨kind, k⟩
      simp only [hk, Option.isSome_some, if_true] at hledger
      rw [hall, hledger]
      simp
    · simp only [Function.update_of_ne hr]
      exact hi.ledger r
  · have hne : j ≠ k := by
      rintro rfl
      simp at hj
    simp only [Function.update_of_ne hne] at hj
    exact hi.valid j u hj
  · simp only [hu, Option.some.injEq, exists_eq_left', Function.update_self]
    simp

/-! ## Steps -/

theorem uninitialize_eq (hd : s.deref = some (k, th)) (hpt : 0 ≤ th.ptIrq) :
    irqCall s .irqUninitializeWrapper = some { s with
      threads := Function.update s.threads k none
      released := tally s.released k allKinds } := by
  have hneg : ¬ th.ptIrq < 0 := by simpa using hpt
  have hperm : [ResourceKind.worker, .spawnExecEnv, .execEnv, .memory].Perm allKinds := List.reverse_perm allKinds
  show s.deref.map _ = _
  rw [hd]
  simp only [Option.map_some, CallState.wasmIrqThreadExit, if_neg hneg, CallState.release, tally_tally]
  rw [← tally_perm s.released k hperm]
  rfl

/-- The structures of a failed call are gone; a successful one leaves behind those in place before. -/
theorem CallInv.step_initialize {malloc spawned : Bool} {execEnv : Option Addr} {pthread : Option ThreadId}
    (hi : CallInv i s) (c : IrqCall) (hc : c = .irqInitializeWrapper malloc execEnv spawned pthread) :
    CallInv (c.after i) (s.irqInitializeWrapper malloc execEnv spawned pthread) ∧
      (Orphan (s.irqInitializeWrapper malloc execEnv spawned pthread) ↔ Orphan s ∨ (c.succeeds = true ∧ i = true)) := by
  subst hc
  cases hs : (IrqCall.irqInitializeWrapper malloc execEnv spawned pthread).succeeds with
  | false =>
    have hafter : (IrqCall.irqInitializeWrapper malloc execEnv spawned pthread).after i = i := by
      simp [IrqCall.after, hs]
    rw [hafter]
    rcases initialize_fails (s := s) hs with h | ⟨kinds, hk, h⟩
    · rw [h]
      exact ⟨hi, by simp⟩
    · rw [h]
      refine ⟨hi.fails hk, ?_⟩
      simp [Orphan]
  | true =>
    have hafter : (IrqCall.irqInitializeWrapper malloc execEnv spawned pthread).after i = true := by
      simp [IrqCall.after, hs]
    obtain ⟨th, hth, h⟩ := initialize_succeeds (s := s) hs
    rw [hafter, h]
    refine ⟨hi.succeeds hth, ?_⟩
    have hnone := (hi.fresh s.mallocs (Nat.le_refl _)).1
    -- the user data points to the new structure, so every other one in place is left behind
    have horphan : Orphan ⟨s.mallocs + 1, Function.update s.threads s.mallocs (some th), some s.mallocs,
        tally s.created s.mallocs allKinds, s.released⟩ ↔ ∃ k, (s.threads k).isSome := by
      constructor
      · rintro ⟨k, hk, hne⟩
        have hkm : k ≠ s.mallocs := fun h => hne (congrArg some h.symm)
        simp only [Function.update_of_ne hkm] at hk
        exact ⟨k, hk⟩
      · rintro ⟨k, hk⟩
        have hkm : k ≠ s.mallocs := by
          rintro rfl
          simp [hnone] at hk
        refine ⟨k, ?_, fun h => hkm (Option.some.inj h).symm⟩
        simp only [Function.update_of_ne hkm]
        exact hk
    rw [horphan, hi.initialised]
    constructor
    · rintro ⟨k, hk⟩
      by_cases hu : s.userData = some k
      · exact .inr ⟨rfl, k, hu, hk⟩
      · exact .inl ⟨k, hk, hu⟩
    · rintro (⟨k, hk, -⟩ | ⟨-, k, -, hk⟩)
      · exact ⟨k, hk⟩
      · exact ⟨k, hk⟩

theorem CallInv.step_attach (hi : CallInv i s) (hinit : i = true) (irq index arg : UInt32) (node : Option Addr) :
    ∃ t, irqCall s (.irqAttachWrapper irq index arg node) = some t ∧ CallInv i t ∧ (Orphan t ↔ Orphan s) := by
  obtain ⟨k, th, hd⟩ := hi.deref_iff.1 hinit
  obtain ⟨-, hk⟩ := of_deref hd
  have hstep : irqCall s (.irqAttachWrapper irq index arg node) =
      some (match wasmInterruptRegister th irq index arg node with
        | .ok th => { s with threads := Function.update s.threads k (some th) }
        | .error _ => s) := by
    show s.deref.map _ = _
    rw [hd]
    rfl
  rw [hstep]
  cases hr : wasmInterruptRegister th irq index arg node with
  | error e => exact ⟨s, rfl, hi, Iff.rfl⟩
  | ok th' =>
    refine ⟨_, rfl, hi.attach hk (wasmInterruptRegister_ptIrq hr), ?_⟩
    have hsome := isSome_update hk th'
    simp only [Orphan, hsome]

/-- Only the structure that the user data points to goes. -/
theorem CallInv.step_uninitialize (hi : CallInv i s) (hinit : i = true) :
    ∃ t, irqCall s .irqUninitializeWrapper = some t ∧ CallInv false t ∧ (Orphan t ↔ Orphan s) := by
  obtain ⟨k, th, hd⟩ := hi.deref_iff.1 hinit
  obtain ⟨hu, hk⟩ := of_deref hd
  refine ⟨_, uninitialize_eq hd (hi.valid k th hk), hi.release hu hk, ?_⟩
  have hother : ∀ j, s.userData ≠ some j → Function.update s.threads k none j = s.threads j := by
    intro j hj
    refine Function.update_of_ne ?_ _ _
    rintro rfl
    exact hj hu
  constructor
  · rintro ⟨j, hj, hne⟩
    refine ⟨j, ?_, hne⟩
    rw [← hother j hne]
    exact hj
  · rintro ⟨j, hj, hne⟩
    refine ⟨j, ?_, hne⟩
    simp only [hother j hne]
    exact hj

/-- A call that may go through the user data does so safely, and only a repeated initialisation leaves a structure
that the user data no longer points to. -/
theorem CallInv.step (hi : CallInv i s) {c : IrqCall} (hc : c.derefs = true → i = true) :
    ∃ t, irqCall s c = some t ∧ CallInv (c.after i) t ∧
      (Orphan t ↔ Orphan s ∨ (c.succeeds = true ∧ i = true)) := by
  cases c with
  | irqInitializeWrapper malloc execEnv spawned pthread =>
    exact ⟨_, rfl, hi.step_initialize (.irqInitializeWrapper malloc execEnv spawned pthread) rfl⟩
  | irqAttachWrapper irq index arg node =>
    obtain ⟨t, ht, hit, hot⟩ := hi.step_attach (hc rfl) irq index arg node
    exact ⟨t, ht, hit, by simp [hot, IrqCall.succeeds]⟩
  | irqUninitializeWrapper =>
    obtain ⟨t, ht, hit, hot⟩ := hi.step_uninitialize (hc rfl)
    exact ⟨t, ht, hit, by simp [hot, IrqCall.succeeds]⟩

/-- Without an initialisation in place the user data points to no structure. -/
theorem CallInv.step_none (hi : CallInv i s) {c : IrqCall} (hc : ¬ (c.derefs = true → i = true)) :
    irqCall s c = none := by
  have hd : s.deref = none := by
    rw [Option.eq_none_iff_forall_ne_some]
    rintro ⟨k, th⟩ h
    exact hc fun _ => hi.deref_iff.2 ⟨k, th, h⟩
  cases c with
  | irqInitializeWrapper => exact absurd (fun h => by cases h) hc
  | irqAttachWrapper irq index arg node =>
    show s.deref.map _ = _
    rw [hd]
    rfl
  | irqUninitializeWrapper =>
    show s.deref.map _ = _
    rw [hd]
    rfl

/-! ## Runs -/

/-- Whether an initialisation is in place after the calls. -/
def afterAll (i : Bool) (cs : List IrqCall) : Bool := cs.foldl (fun i c => c.after i) i

theorem CallInv.run {cs : List IrqCall} : ∀ {i : Bool} {s : CallState}, CallInv i s → Initialised i cs →
    ∃ t, exec irqCall s cs = some t ∧ CallInv (afterAll i cs) t ∧ (Orphan t ↔ Orphan s ∨ ¬ NotRepeated i cs) := by
  induction cs with
  | nil => exact fun {i s} hi _ => ⟨s, rfl, hi, by simp [NotRepeated]⟩
  | cons c cs ih =>
    rintro i s hi ⟨hc, hcs⟩
    obtain ⟨u, hu, hiu, hou⟩ := hi.step hc
    obtain ⟨t, ht, hit, hot⟩ := ih hiu hcs
    refine ⟨t, ?_, hit, ?_⟩
    · rw [exec_cons, hu]
      exact ht
    · rw [hot, hou, or_assoc, NotRepeated, not_and_or, not_not]

theorem CallInv.run_none {cs : List IrqCall} : ∀ {i : Bool} {s : CallState}, CallInv i s → ¬ Initialised i cs →
    exec irqCall s cs = none := by
  induction cs with
  | nil => exact fun {i s} _ h => absurd trivial h
  | cons c cs ih =>
    intro i s hi h
    rw [exec_cons]
    by_cases hc : c.derefs = true → i = true
    · obtain ⟨u, hu, hiu, -⟩ := hi.step hc
      rw [hu]
      exact ih hiu fun hcs => h ⟨hc, hcs⟩
    · rw [hi.step_none hc]
      rfl

theorem afterAll_of_getLast {cs : List IrqCall} (i : Bool) (h : cs.getLast? = some .irqUninitializeWrapper) :
    afterAll i cs = false := by
  obtain ⟨cs, rfl⟩ := List.getLast?_eq_some_iff.1 h
  rw [afterAll, List.foldl_append]
  rfl

/-- Without an initialisation in place, all is released exactly when no structure is left behind. -/
theorem CallInv.released_iff (hi : CallInv false s) :
    (∀ r, 0 < s.created r → s.created r = 1 ∧ s.released r = 1) ↔ ¬ Orphan s := by
  constructor
  · rintro h ⟨k, hk, -⟩
    have hledger := hi.ledger ⟨.memory, k⟩
    simp only [hk, if_true] at hledger
    have := h ⟨.memory, k⟩ (by omega)
    omega
  · intro h r hr
    have hnone : (s.threads r.owner).isSome = false := by
      by_contra hsome
      simp only [Bool.not_eq_false] at hsome
      refine h ⟨r.owner, hsome, fun hu => ?_⟩
      exact Bool.false_ne_true (hi.initialised.2 ⟨r.owner, hu, hsome⟩)
    have hledger := hi.ledger r
    have honce := hi.once r
    simp only [hnone, Bool.false_eq_true, if_false] at hledger
    omega

/-! ## The result -/

/-- The calls are safe exactly when `irq_attach` and `irq_uninitialize` follow an initialisation still in place,
and those that end in `irq_uninitialize` did not initialise over one. -/
theorem safeInOrder_iff (cs : List IrqCall) :
    SafeInOrder cs ↔ Initialised false cs ∧
      (cs.getLast? = some .irqUninitializeWrapper → NotRepeated false cs) := by
  have hstart : ¬ Orphan .start := by
    rintro ⟨k, hk, -⟩
    cases hk
  constructor
  · rintro ⟨t, ht, hlast⟩
    have hinit : Initialised false cs := by
      by_contra h
      rw [callInv_start.run_none h] at ht
      cases ht
    refine ⟨hinit, fun h => ?_⟩
    obtain ⟨t', ht', hit, hot⟩ := callInv_start.run hinit
    cases ht.symm.trans ht'
    rw [afterAll_of_getLast false h] at hit
    have := hit.released_iff.1 (hlast h)
    rw [hot] at this
    simpa [hstart] using this
  · rintro ⟨hinit, hrep⟩
    obtain ⟨t, ht, hit, hot⟩ := callInv_start.run hinit
    refine ⟨t, ht, fun h => ?_⟩
    rw [afterAll_of_getLast false h] at hit
    rw [hit.released_iff, hot]
    simp [hstart, hrep h]

/-- `irq_attach` before any `irq_initialize` dereferences a null user data. -/
theorem attachFirst_not_safeInOrder : ¬ ∀ cs, SafeInOrder cs := by
  intro h
  obtain ⟨s, hs, -⟩ := h [.irqAttachWrapper 3 0 0 none]
  cases hs

end VelaWasm.Irq
