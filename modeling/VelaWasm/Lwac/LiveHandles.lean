/-
Liveness of the registered handles. The cleanup of a registered run destroys the exec env while the
registry still lists the run, so at that step, and until the run unregisters, the registry denotes a dead
env. A run of the system has only live entries exactly when it never takes that step.
-/
import VelaWasm.Lib.Ownership
import VelaWasm.Lib.Run
import VelaWasm.Lwac.Execute

namespace VelaWasm.Lwac

open VelaWasm.Run

/-! ## The property -/

/-- The handles of every entry are live, and so is the exec env that each printer passes to
`wasm_runtime_get_aux_stack_info` next. -/
structure LiveEntries (s : LwacState) : Prop where
  entries : ∀ m ∈ s.registry.moduleListHead,
    m.wasmModule ∈ s.modules ∧ m.moduleInst ∈ s.moduleInsts ∧ m.execEnv ∈ s.execEnvs
  printed : ∀ p ∈ s.printers, ∀ a ∈ p.auxStackEnv, a ∈ s.execEnvs

/-! ## What a run holds -/

def Execution.wasmModule? (e : Execution) : Option Addr :=
  match e.stage with
  | .instantiate m | .createExecEnv m _ | .unregister m _ _ _ | .deinstantiate m _ _ | .unload m _ => some m
  | .lookupFunction h | .register h _ | .callWasm h _ _ | .destroyExecEnv h _ _ => some h.wasmModule
  | .load | .returned _ => none

def Execution.moduleInst? (e : Execution) : Option Addr :=
  match e.stage with
  | .createExecEnv _ i | .unregister _ i _ _ | .deinstantiate _ i _ => some i
  | .lookupFunction h | .register h _ | .callWasm h _ _ | .destroyExecEnv h _ _ => some h.moduleInst
  | .load | .instantiate _ | .unload _ _ | .returned _ => none

def Execution.execEnv? (e : Execution) : Option Addr :=
  match e.stage with
  | .lookupFunction h | .register h _ | .callWasm h _ _ | .destroyExecEnv h _ _ => some h.execEnv
  | _ => none

/-- The record of a run between its registration and its unregistration. -/
def Execution.moduleInfo? (e : Execution) : Option WasmModuleInfo :=
  match e.stage with
  | .callWasm _ _ moduleInfo | .destroyExecEnv _ moduleInfo _ | .unregister _ _ moduleInfo _ => moduleInfo
  | _ => none

/-- The step does not destroy the exec env of a run with a record. -/
def KeepsRegisteredEnv (s : LwacState) : LwacAction → Prop
  | .destroyExecEnv i => ∀ e ∈ s.executions[i]?, e.moduleInfo? = none
  | _ => True

instance (s : LwacState) : DecidablePred (KeepsRegisteredEnv s)
  | .destroyExecEnv i => inferInstanceAs (Decidable (∀ e ∈ s.executions[i]?, e.moduleInfo? = none))
  | .execute _ | .load .. | .instantiate .. | .createExecEnv .. | .lookupFunction .. | .register ..
  | .callWasm .. | .unregister _ | .deinstantiate _ | .unload _ | .printStart _ | .printRow ..
  | .printEnd _ => isTrue trivial

/-- The record of a run denotes the handles that the run holds. -/
def Execution.Denotes (e : Execution) : Prop := ∀ m, e.moduleInfo? = some m →
  e.wasmModule? = some m.wasmModule ∧ e.moduleInst? = some m.moduleInst ∧ e.execEnv? = some m.execEnv

/-! ## The invariant -/

/-- Each run holds live handles of its own, the registry lists the records of the runs, each of which
denotes the handles its run holds, and the printers go through records of the registry. -/
structure RegistryInv (s : LwacState) : Prop where
  modules : Held Execution.wasmModule? s.executions s.modules
  moduleInsts : Held Execution.moduleInst? s.executions s.moduleInsts
  execEnvs : Held Execution.execEnv? s.executions s.execEnvs
  denotes : ∀ (i : ℕ) (e : Execution), s.executions[i]? = some e → e.Denotes
  listed : ∀ m, m ∈ s.registry.moduleListHead ↔ Owned Execution.moduleInfo? s.executions m
  printers : ∀ p ∈ s.printers, p.current ⊆ s.registry.moduleListHead

theorem registryInv_start : RegistryInv .start :=
  ⟨.nil, .nil, .nil, fun _ _ h => (by cases h), fun _ => ⟨fun h => (by cases h), fun ⟨_, _, h, _⟩ => (by cases h)⟩,
    fun _ h => (by cases h)⟩

theorem liveEntries_of_inv {s : LwacState} (h : RegistryInv s) : LiveEntries s := by
  have hentry : ∀ m ∈ s.registry.moduleListHead,
      m.wasmModule ∈ s.modules ∧ m.moduleInst ∈ s.moduleInsts ∧ m.execEnv ∈ s.execEnvs := by
    intro m hm
    obtain ⟨i, e, he, hinfo⟩ := (h.listed m).1 hm
    obtain ⟨h1, h2, h3⟩ := h.denotes i e he m hinfo
    exact ⟨h.modules.live _ ⟨i, e, he, h1⟩, h.moduleInsts.live _ ⟨i, e, he, h2⟩, h.execEnvs.live _ ⟨i, e, he, h3⟩⟩
  refine ⟨hentry, fun p hp a ha => ?_⟩
  obtain ⟨m, hm, rfl⟩ := Option.map_eq_some_iff.1 ha
  exact (hentry m (h.printers p hp (List.mem_of_mem_head? hm))).2.2

variable {s t : LwacState} {i : ℕ} {params : ExecParams} {stage stage' : Stage}

/-! ## Steps -/

/-- A run that goes on with the record it has, and may create or destroy a handle. -/
theorem RegistryInv.enter {modules insts envs : Finset Addr} (h : RegistryInv s)
    (hi : s.executions[i]? = some ⟨params, stage⟩)
    (hinfo : Execution.moduleInfo? ⟨params, stage'⟩ = Execution.moduleInfo? ⟨params, stage⟩)
    (hden : Execution.Denotes ⟨params, stage'⟩)
    (hm : Held Execution.wasmModule? (s.executions.set i ⟨params, stage'⟩) modules)
    (hn : Held Execution.moduleInst? (s.executions.set i ⟨params, stage'⟩) insts)
    (he : Held Execution.execEnv? (s.executions.set i ⟨params, stage'⟩) envs) :
    RegistryInv { s.enter i params stage' with modules := modules, moduleInsts := insts, execEnvs := envs } where
  modules := hm
  moduleInsts := hn
  execEnvs := he
  denotes j e hj := by
    rcases getElem?_set_some hj with ⟨-, rfl⟩ | ⟨-, hj⟩
    · exact hden
    · exact h.denotes j e hj
  listed m := (h.listed m).trans (owned_set_iff hi hinfo).symm
  printers := h.printers

/-- A run that goes on with the handles and the record it has. -/
theorem RegistryInv.goOn (h : RegistryInv s) (hi : s.executions[i]? = some ⟨params, stage⟩)
    (hinfo : Execution.moduleInfo? ⟨params, stage'⟩ = Execution.moduleInfo? ⟨params, stage⟩)
    (hden : Execution.Denotes ⟨params, stage'⟩)
    (hm : Execution.wasmModule? ⟨params, stage'⟩ = Execution.wasmModule? ⟨params, stage⟩)
    (hn : Execution.moduleInst? ⟨params, stage'⟩ = Execution.moduleInst? ⟨params, stage⟩)
    (he : Execution.execEnv? ⟨params, stage'⟩ = Execution.execEnv? ⟨params, stage⟩) :
    RegistryInv (s.enter i params stage') :=
  h.enter hi hinfo hden (h.modules.set hi hm) (h.moduleInsts.set hi hn) (h.execEnvs.set hi he)

theorem denotes_of_none {e : Execution} (h : e.moduleInfo? = none) : e.Denotes := by
  intro m hm
  rw [h] at hm
  cases hm

variable {profiling : Bool} {handle : Option Addr}

theorem inv_execute (h : RegistryInv s) : RegistryInv { s with executions := s.executions ++ [⟨params, .load⟩] } where
  modules := h.modules.append rfl
  moduleInsts := h.moduleInsts.append rfl
  execEnvs := h.execEnvs.append rfl
  denotes j e hj := by
    rcases getElem?_concat_some hj with hj | ⟨-, rfl⟩
    · exact h.denotes j e hj
    · exact denotes_of_none rfl
  listed m := (h.listed m).trans (owned_append_iff rfl).symm
  printers := h.printers

theorem inv_load (h : RegistryInv s) (ht : s.load i handle = some t) : RegistryInv t := by
  unfold LwacState.load at ht
  split at ht
  · next params hi =>
    cases ht
    exact h.goOn hi rfl (denotes_of_none rfl) rfl rfl rfl
  · next params a hi =>
    split at ht
    · next hnew =>
      cases ht
      exact h.enter hi rfl (denotes_of_none rfl) (h.modules.acquire hi rfl rfl hnew.2) (h.moduleInsts.set hi rfl)
        (h.execEnvs.set hi rfl)
    · cases ht
  · cases ht

theorem inv_instantiate (h : RegistryInv s) (ht : s.instantiate i handle = some t) : RegistryInv t := by
  unfold LwacState.instantiate at ht
  split at ht
  · next params m hi =>
    cases ht
    exact h.goOn hi rfl (denotes_of_none rfl) rfl rfl rfl
  · next params m a hi =>
    split at ht
    · next hnew =>
      cases ht
      exact h.enter hi rfl (denotes_of_none rfl) (h.modules.set hi rfl)
        (h.moduleInsts.acquire hi rfl rfl hnew.2) (h.execEnvs.set hi rfl)
    · cases ht
  · cases ht

theorem inv_createExecEnv (h : RegistryInv s) (ht : s.createExecEnv i handle = some t) : RegistryInv t := by
  unfold LwacState.createExecEnv at ht
  split at ht
  · next params m inst hi =>
    cases ht
    exact h.goOn hi rfl (denotes_of_none rfl) rfl rfl rfl
  · next params m inst a hi =>
    split at ht
    · next hnew =>
      cases ht
      exact h.enter hi rfl (denotes_of_none rfl) (h.modules.set hi rfl) (h.moduleInsts.set hi rfl)
        (h.execEnvs.acquire hi rfl rfl hnew.2)
    · cases ht
  · cases ht

theorem inv_lookupFunction {exports : List CString} (h : RegistryInv s)
    (ht : s.lookupFunction i exports = some t) : RegistryInv t := by
  unfold LwacState.lookupFunction at ht
  split at ht
  · next params hs hi =>
    split at ht <;> cases ht
    · exact h.goOn hi rfl (denotes_of_none rfl) rfl rfl rfl
    · exact h.goOn hi rfl (denotes_of_none rfl) rfl rfl rfl
  · cases ht

/-- The new record denotes the handles of the run, which had none before. -/
theorem RegistryInv.register {hs : Handles} {entry : CString} {m : WasmModuleInfo} {counter : UInt32}
    (h : RegistryInv s) (hi : s.executions[i]? = some ⟨params, .register hs entry⟩) (hlock : s.printers = [])
    (hm : (⟨m.wasmModule, m.moduleInst, m.execEnv⟩ : Handles) = hs) :
    RegistryInv { s.enter i params (.callWasm hs entry (some m)) with
      registry := ⟨m :: s.registry.moduleListHead, counter⟩ } where
  modules := h.modules.set hi rfl
  moduleInsts := h.moduleInsts.set hi rfl
  execEnvs := h.execEnvs.set hi rfl
  denotes j e hj := by
    rcases getElem?_set_some hj with ⟨-, rfl⟩ | ⟨-, hj⟩
    · rintro k hk
      cases hk
      subst hm
      exact ⟨rfl, rfl, rfl⟩
    · exact h.denotes j e hj
  listed k := by
    have hacq : Owned Execution.moduleInfo? (s.executions.set i ⟨params, .callWasm hs entry (some m)⟩) k ↔
        k = m ∨ Owned Execution.moduleInfo? s.executions k := owned_set_acquire_iff hi rfl rfl
    exact List.mem_cons.trans ((or_congr_right (h.listed k)).trans hacq.symm)
  printers p hp := by
    have hp' : p ∈ s.printers := hp
    rw [hlock] at hp'
    cases hp'

theorem inv_register {allocated : Bool} {now : Int64} (h : RegistryInv s)
    (ht : s.register i allocated now = some t) : RegistryInv t := by
  unfold LwacState.register at ht
  split at ht
  · next params hs entry hi =>
    split at ht
    · next hlock =>
      cases ht
      cases allocated with
      | false => exact h.goOn hi rfl (denotes_of_none rfl) rfl rfl rfl
      | true => exact h.register hi (List.isEmpty_iff.1 hlock) rfl
    · cases ht
  · cases ht

theorem inv_callWasm {ok : Bool} (h : RegistryInv s) (ht : s.callWasm i ok = some t) : RegistryInv t := by
  unfold LwacState.callWasm at ht
  split at ht
  · next params hs entry info hi =>
    cases ht
    have hden := h.denotes i _ hi
    exact h.goOn hi rfl hden rfl rfl rfl
  · cases ht

/-- Only a run without a record may destroy its exec env. -/
theorem inv_destroyExecEnv (h : RegistryInv s) (hok : KeepsRegisteredEnv s (.destroyExecEnv i))
    (ht : s.destroyExecEnv i = some t) : RegistryInv t := by
  unfold LwacState.destroyExecEnv at ht
  split at ht
  · next params hs info ret hi =>
    have hnone : info = none := hok _ hi
    subst hnone
    cases ht
    exact h.enter hi rfl (denotes_of_none rfl) (h.modules.set hi rfl) (h.moduleInsts.set hi rfl)
      (h.execEnvs.release hi rfl rfl)
  · cases ht

/-- A run that unregisters has no record, since its exec env is gone, and no other run has its instance:
nothing is unlinked. -/
theorem unregister_eq {m inst : Addr} {info : Option WasmModuleInfo} {ret : ExitCode} (h : RegistryInv s)
    (hi : s.executions[i]? = some ⟨params, .unregister m inst info ret⟩) :
    info = none ∧ (lwacUnregisterWasmModule s.registry inst).1 = s.registry := by
  have hnone : info = none := by
    rw [Option.eq_none_iff_forall_not_mem]
    intro k hk
    have henv : Execution.execEnv? ⟨params, .unregister m inst info ret⟩ = some k.execEnv :=
      (h.denotes i _ hi k hk).2.2
    cases henv
  refine ⟨hnone, ?_⟩
  rw [lwacUnregister_of_ne]
  rintro k hk rfl
  obtain ⟨j, e, hj, hinfo⟩ := (h.listed k).1 hk
  have hji : j = i := h.moduleInsts.unique j i e _ _ hj hi (h.denotes j e hj k hinfo).2.1 rfl
  rw [hji, hi] at hj
  cases hj
  cases hnone.symm.trans hinfo

theorem inv_unregister (h : RegistryInv s) (ht : s.unregister i = some t) : RegistryInv t := by
  unfold LwacState.unregister at ht
  split at ht
  · next params m inst info ret hi =>
    split at ht
    · cases ht
      obtain ⟨rfl, hr⟩ := unregister_eq h hi
      rw [hr]
      exact h.goOn hi rfl (denotes_of_none rfl) rfl rfl rfl
    · cases ht
  · cases ht

theorem inv_deinstantiate (h : RegistryInv s) (ht : s.deinstantiate i = some t) : RegistryInv t := by
  unfold LwacState.deinstantiate at ht
  split at ht
  · next params m inst ret hi =>
    cases ht
    exact h.enter hi rfl (denotes_of_none rfl) (h.modules.set hi rfl) (h.moduleInsts.release hi rfl rfl)
      (h.execEnvs.set hi rfl)
  · cases ht

theorem inv_unload (h : RegistryInv s) (ht : s.unload i = some t) : RegistryInv t := by
  unfold LwacState.unload at ht
  split at ht
  · next params m ret hi =>
    cases ht
    exact h.enter hi rfl (denotes_of_none rfl) (h.modules.release hi rfl rfl) (h.moduleInsts.set hi rfl)
      (h.execEnvs.set hi rfl)
  · cases ht

/-- The printers change nothing but themselves. -/
theorem RegistryInv.setPrinters {printers : List Printer} (h : RegistryInv s)
    (hp : ∀ p ∈ printers, p.current ⊆ s.registry.moduleListHead) :
    RegistryInv { s with printers } :=
  ⟨h.modules, h.moduleInsts, h.execEnvs, h.denotes, h.listed, hp⟩

theorem inv_printRow {j : ℕ} {heapInfo : Option MemAllocInfo} {aux : Option UInt32} (h : RegistryInv s)
    (ht : s.printRow profiling j heapInfo aux = some t) : RegistryInv t := by
  obtain ⟨p, hj, hp⟩ := Option.bind_eq_some_iff.1 ht
  obtain ⟨q, hq, rfl⟩ := Option.map_eq_some_iff.1 hp
  refine h.setPrinters fun k hk => ?_
  rcases List.mem_or_eq_of_mem_set hk with hk | rfl
  · exact h.printers k hk
  · exact List.Subset.trans (Printer.print_current hq) (h.printers p (List.mem_of_getElem? hj))

theorem inv_printEnd {j : ℕ} (h : RegistryInv s) (ht : s.printEnd j = some t) : RegistryInv t := by
  unfold LwacState.printEnd at ht
  split at ht
  · cases ht
    exact h.setPrinters fun p hp => h.printers p (List.mem_of_mem_eraseIdx hp)
  · cases ht

theorem registryInv_step {a : LwacAction} (h : RegistryInv s) (hok : KeepsRegisteredEnv s a)
    (ht : lwacStep profiling s a = some t) : RegistryInv t := by
  cases a with
  | execute => cases ht; exact inv_execute h
  | load => exact inv_load h ht
  | instantiate => exact inv_instantiate h ht
  | createExecEnv => exact inv_createExecEnv h ht
  | lookupFunction => exact inv_lookupFunction h ht
  | register => exact inv_register h ht
  | callWasm => exact inv_callWasm h ht
  | destroyExecEnv => exact inv_destroyExecEnv h hok ht
  | unregister => exact inv_unregister h ht
  | deinstantiate => exact inv_deinstantiate h ht
  | unload => exact inv_unload h ht
  | printStart =>
    cases ht
    refine h.setPrinters fun p hp => ?_
    rcases List.mem_append.1 hp with hp | hp
    · exact h.printers p hp
    · rw [List.mem_singleton.1 hp]
      exact List.Subset.refl _
  | printRow => exact inv_printRow h ht
  | printEnd => exact inv_printEnd h ht

/-- A run with a record that destroys its exec env leaves the record with a dead handle. -/
theorem not_liveEntries_of_destroyExecEnv (h : RegistryInv s) (hbad : ¬ KeepsRegisteredEnv s (.destroyExecEnv i))
    (ht : s.destroyExecEnv i = some t) : ¬ LiveEntries t := by
  unfold LwacState.destroyExecEnv at ht
  split at ht
  · next params hs info ret hi =>
    cases info with
    | none =>
      refine absurd (fun e he => ?_) hbad
      rw [hi] at he
      cases he
      rfl
    | some m =>
      cases ht
      intro hl
      have hm : m ∈ s.registry.moduleListHead := (h.listed m).2 ⟨i, _, hi, rfl⟩
      have henv : some hs.execEnv = some m.execEnv := (h.denotes i _ hi m rfl).2.2
      have hlive : m.execEnv ∈ s.execEnvs.erase hs.execEnv := (hl.entries m hm).2.2
      rw [Option.some.inj henv] at hlive
      exact Finset.notMem_erase _ _ hlive
  · cases ht

theorem not_liveEntries_step {a : LwacAction} (h : RegistryInv s) (hbad : ¬ KeepsRegisteredEnv s a)
    (ht : lwacStep profiling s a = some t) : ¬ LiveEntries t := by
  cases a with
  | destroyExecEnv => exact not_liveEntries_of_destroyExecEnv h hbad ht
  | _ => exact absurd trivial hbad

/-! ## Runs -/

/-- A run of the system has only live entries in all its states exactly when no registered run of
`execute_wasm_module` destroys its exec env. -/
theorem liveEntries_iff_keepsRegisteredEnv {as : List LwacAction}
    (h : exec (lwacStep profiling) LwacState.start as = some s) :
    Along (lwacStep profiling) LiveEntries LwacState.start as ↔
      Meets (lwacStep profiling) KeepsRegisteredEnv LwacState.start as :=
  along_iff_meets (fun _ => liveEntries_of_inv) (fun _ _ _ hi hok ht => registryInv_step hi hok ht)
    (fun _ _ _ hi hbad ht => not_liveEntries_step hi hbad ht) registryInv_start h

/-- A module without an entry function is cleaned up while another, which registered, still runs and a
printer prints it. -/
def missingEntry : List LwacAction :=
  let params : ExecParams := ⟨2048, 4096, none, some "/inc/inc_demo.wasm.aot".toList⟩
  [.execute params, .load 0 (some 0x100), .instantiate 0 (some 0x200), .createExecEnv 0 (some 0x300),
    .lookupFunction 0 ["main".toList], .register 0 true 10, .execute params, .load 1 (some 0x110),
    .instantiate 1 (some 0x210), .createExecEnv 1 (some 0x310), .lookupFunction 1 [], .printStart 70,
    .destroyExecEnv 1, .printRow 0 (some ⟨100, 60, 40, 40⟩) (some 8), .printEnd 0, .unregister 1,
    .deinstantiate 1, .unload 1]

theorem liveEntries_missingEntry : Along (lwacStep true) LiveEntries LwacState.start missingEntry := by
  have hrun : ∃ s, exec (lwacStep true) LwacState.start missingEntry = some s :=
    Option.isSome_iff_exists.1 (by decide)
  obtain ⟨s, h⟩ := hrun
  exact (liveEntries_iff_keepsRegisteredEnv h).2 (by decide)

/-- A module whose entry function has returned, up to the destruction of its exec env, while a printer is
about to print it. -/
def printedCleanup : List LwacAction :=
  [.execute ⟨2048, 4096, none, none⟩, .load 0 (some 0x100), .instantiate 0 (some 0x200),
    .createExecEnv 0 (some 0x300), .lookupFunction 0 ["main".toList], .register 0 true 10, .callWasm 0 true,
    .printStart 70, .destroyExecEnv 0]

theorem printed_env_destroyed : ¬ ∀ (profiling : Bool) (as : List LwacAction) (s : LwacState),
    exec (lwacStep profiling) LwacState.start as = some s → LiveEntries s := by
  intro h
  have hrun : ∃ s, exec (lwacStep true) LwacState.start printedCleanup = some s ∧
      ∃ p ∈ s.printers, ∃ a ∈ p.auxStackEnv, a ∉ s.execEnvs := ⟨_, rfl, by decide⟩
  obtain ⟨s, hs, p, hp, a, ha, hdead⟩ := hrun
  exact hdead ((h true printedCleanup s hs).printed p hp a ha)

end VelaWasm.Lwac
